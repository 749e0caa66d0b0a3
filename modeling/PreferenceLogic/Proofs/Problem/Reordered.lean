import PreferenceLogic.Proofs.Problem.Described

/-!
# The order of the lines

The clauses of a conjunction, the addends of a total and the columns of a comparison may stand in
any order. So the order of the lines in the files of constraints and rules changes neither which
problems are loaded nor the answers about them.

Definitions:
* `Rulebook.SameRules`: two rulebooks have the same rules.
* `Problem.SameAnswers`: two problems give the same answers.

Results:
* `Rulebook.SameRules.prefer_eq`: the order of the rules changes no comparison.
* `Problem.sameAnswers_of_sameLines`: the order of the lines changes no answer.
-/

namespace PreferenceLogic

/-! ## The order of the rules -/

/-- The columns of a comparison may stand in any order. -/
theorem Comparison.ofDegrees_map_of_perm {ρ : Type} {f g : ρ → Degree} {columns columns' : List ρ}
    (h : columns.Perm columns') :
    ofDegrees (columns.map f) (columns.map g) = ofDegrees (columns'.map f) (columns'.map g) := by
  have hany : ∀ better : Degree × Degree → Bool,
      ((columns.map f).zip (columns.map g)).any better =
        ((columns'.map f).zip (columns'.map g)).any better := by
    intro better
    rw [List.zip_map', List.zip_map', Bool.eq_iff_iff, List.any_eq_true, List.any_eq_true]
    simp only [List.mem_map, h.mem_iff]
  rw [ofDegrees, ofDegrees, hany, hany]

/-- Two rulebooks have the same rules, in whatever order. -/
structure Rulebook.SameRules (rules rules' : Rulebook) : Prop where
  penalty : rules.penalty.Perm rules'.penalty
  choice : rules.choice.Perm rules'.choice

namespace Rulebook.SameRules

variable {rules rules' : Rulebook} (h : rules.SameRules rules')

include h

theorem total_eq (x : Object) :
    (PenaltyRow.declared rules.penalty x).total = (PenaltyRow.declared rules'.penalty x).total :=
  (h.penalty.map _).sum_eq

theorem prefer_eq (logic : Logic) : rules.prefer logic = rules'.prefer logic := by
  funext x y
  cases logic with
  | penalty => exact congrArg₂ Comparison.ofTotals (h.total_eq x) (h.total_eq y)
  | qualitative => exact Comparison.ofDegrees_map_of_perm h.choice

end Rulebook.SameRules

/-! ## The order of the constraints -/

theorem File.SameLines.satisfying_eq {constraints constraints' : List UInt8}
    (h : File.SameLines constraints constraints') (v : Vocabulary) :
    v.satisfying constraints = v.satisfying constraints' := by
  unfold Vocabulary.satisfying
  refine List.filter_congr fun x _ => ?_
  rw [decide_eq_decide]
  simp only [Object.Satisfies, h.perm.mem_iff]

namespace Problem

variable {config : Config} {v : Vocabulary} {rules rules' : Rulebook}
  {attributes constraints constraints' penalty penalty' qualitative qualitative' : List UInt8}

/-! ## Answers -/

/-- Two problems have the same objects and give the same answers about them: which ones are
feasible, their totals, all comparisons and the optimal objects. -/
structure SameAnswers (p p' : Problem) : Prop where
  objects : p.objects = p'.objects
  feasible : p.feasible = p'.feasible
  total? : ∀ id, p.penalties.total? id = p'.penalties.total? id
  compare : ∀ logic a b, p.compare logic a b = p'.compare logic a b
  optimal : ∀ logic, p.optimal logic = p'.optimal logic

section

variable (hconstraints : File.SameLines constraints constraints')

include hconstraints

theorem sameAnswers_described (hrules : rules.SameRules rules') :
    SameAnswers (described v constraints rules) (described v constraints' rules') := by
  have hsatisfying := hconstraints.satisfying_eq v
  have hsatisfying? : v.satisfying? constraints = v.satisfying? constraints' := by
    funext id
    rw [Vocabulary.satisfying?, hsatisfying, Vocabulary.satisfying?]
  refine ⟨rfl, congrArg (List.map Object.id) hsatisfying, fun id => ?_, fun logic a b => ?_,
    fun logic => ?_⟩
  · rw [total?_described, total?_described, hsatisfying?]
    simp only [hrules.total_eq]
  · rw [compare_described, compare_described, hsatisfying?, hrules.prefer_eq]
  · rw [optimal_described, optimal_described, hsatisfying, hrules.prefer_eq]

theorem overdue?_eq (hrules : rules.SameRules rules') :
    overdue? v constraints rules = overdue? v constraints' rules' := by
  unfold overdue?
  rw [hconstraints.satisfying_eq v]
  simp only [hrules.total_eq]

/-- Other orders of the lines pass the same checks. -/
theorem Admits.exists_reordered
    (h : Admits config attributes constraints penalty qualitative v rules)
    (hpenalty : File.SameLines penalty penalty')
    (hqualitative : File.SameLines qualitative qualitative') :
    ∃ rules', Admits config attributes constraints' penalty' qualitative' v rules' ∧
      rules.SameRules rules' := by
  obtain ⟨penaltyRules, hread, hperm⟩ := hpenalty.exists_collect h.penalty
  obtain ⟨choiceRules, hread', hperm'⟩ := hqualitative.exists_collect h.choice
  have hlines : ∃ f, Formula.read v constraints' = .ok f := by
    obtain ⟨-, hparsed⟩ := Formula.exists_read_iff.mp h.constraints
    refine Formula.exists_read_iff.mpr ⟨hconstraints.decodable', fun line hline => ?_⟩
    exact hparsed line (hconstraints.perm.mem_iff.mpr hline)
  refine ⟨⟨penaltyRules, choiceRules⟩, ?_, hperm.symm, hperm'.symm⟩
  exact {
    attributes := h.attributes
    constraints := hlines
    penalty := hread
    choice := hread'
    size_le := h.size_le
    nodup_penalty := (hperm.map _).nodup_iff.mpr h.nodup_penalty
    nodup_choice := (hperm'.map _).nodup_iff.mpr h.nodup_choice }

variable (hpenalty : File.SameLines penalty penalty')
  (hqualitative : File.SameLines qualitative qualitative')

include hpenalty hqualitative

theorem exists_ofFiles_of_sameLines {p : Problem}
    (h : ofFiles config attributes constraints penalty qualitative = .ok p) :
    ∃ p', ofFiles config attributes constraints' penalty' qualitative' = .ok p' ∧
      SameAnswers p p' := by
  obtain ⟨v, rules, hadmits, hjudged⟩ := ofFiles_eq_ok_iff.mp h
  obtain ⟨rules', hadmits', hrules⟩ := hadmits.exists_reordered hconstraints hpenalty hqualitative
  obtain ⟨hnone, rfl⟩ := judged_eq_ok_iff.mp hjudged
  rw [overdue?_eq hconstraints hrules] at hnone
  refine ⟨described v constraints' rules', ?_, sameAnswers_described hconstraints hrules⟩
  exact ofFiles_eq_ok_iff.mpr ⟨v, rules', hadmits', judged_eq_ok_iff.mpr ⟨hnone, rfl⟩⟩

theorem overflow_of_sameLines {id : Nat}
    (h : ofFiles config attributes constraints penalty qualitative =
      .error (.problem (.penaltyOverflow id))) :
    ofFiles config attributes constraints' penalty' qualitative' =
      .error (.problem (.penaltyOverflow id)) := by
  obtain ⟨v, rules, hadmits, hjudged⟩ := ofFiles_eq_overflow_iff.mp h
  obtain ⟨rules', hadmits', hrules⟩ := hadmits.exists_reordered hconstraints hpenalty hqualitative
  rw [judged_eq_overflow_iff, overdue?_eq hconstraints hrules] at hjudged
  exact ofFiles_eq_overflow_iff.mpr ⟨v, rules', hadmits', judged_eq_overflow_iff.mpr hjudged⟩

end

/-- **Order of lines.** With oracles that are correct and never fail, the order of the lines in the
files of constraints and rules decides neither whether a problem is loaded nor which object is
reported to owe too much. Two problems that are loaded have the same feasible objects with the same
totals, the same comparisons of any two numbers, and the same optimal objects in both logics. -/
theorem sameAnswers_of_sameLines {σ σ' : Type} {o : Oracle σ} {o' : Oracle σ'} (ho : o.Reliable)
    (ho' : o'.Reliable) (config : Config) (attributes : List UInt8)
    (hconstraints : File.SameLines constraints constraints')
    (hpenalty : File.SameLines penalty penalty')
    (hqualitative : File.SameLines qualitative qualitative') (s : Session σ) (s' : Session σ') :
    let loading := load o config (.ofContents attributes constraints penalty qualitative)
    let loading' := load o' config (.ofContents attributes constraints' penalty' qualitative')
    ((∃ p t, loading.Returns s p t) ↔ ∃ p' t', loading'.Returns s' p' t') ∧
      (∀ id, (loading.outcome s).1 = .error (.problem (.penaltyOverflow id)) ↔
        (loading'.outcome s').1 = .error (.problem (.penaltyOverflow id))) ∧
      ∀ p t p' t', loading.Returns s p t → loading'.Returns s' p' t' → SameAnswers p p' := by
  intro loading loading'
  have hgives := load_gives ho config attributes constraints penalty qualitative
  have hgives' := load_gives ho' config attributes constraints' penalty' qualitative'
  have hback : ∀ p', ofFiles config attributes constraints' penalty' qualitative' = .ok p' →
      ∃ p, ofFiles config attributes constraints penalty qualitative = .ok p := by
    intro p' hp'
    obtain ⟨p, hp, -⟩ := exists_ofFiles_of_sameLines hconstraints.symm hpenalty.symm
      hqualitative.symm hp'
    exact ⟨p, hp⟩
  obtain ⟨hloads, hsame⟩ := hgives.related hgives'
    (fun _ => exists_ofFiles_of_sameLines hconstraints hpenalty hqualitative) hback s s'
  refine ⟨hloads, fun id => ?_, hsame⟩
  rw [hgives s, hgives' s']
  exact ⟨overflow_of_sameLines hconstraints hpenalty hqualitative,
    overflow_of_sameLines hconstraints.symm hpenalty.symm hqualitative.symm⟩

/-- The rules about a dinner in the opposite order, and the constraint under a comment. -/
theorem sameAnswers_of_sameLines_dinner :
    ∃ p t p' t',
      (load Oracle.exact {} (dinner "fish OR NOT white\n")).Returns { oracle := 0 } p t ∧
      (load Oracle.exact {} (.ofContents dinnerAttributes
        (bytes "# wine\n  fish OR NOT white\n\n") (bytes "red, 2\nNOT fish OR white, 3\n")
        (bytes "meat BT fish IF red\nwhite BT red\n"))).Returns { oracle := 0 } p' t' ∧
      SameAnswers p p' := by
  obtain ⟨p, t, hp, -⟩ := exists_load_dinner
  have hconstraints : File.SameLines (bytes "fish OR NOT white\n")
      (bytes "# wine\n  fish OR NOT white\n\n") :=
    ⟨by decide +kernel, by decide +kernel, by decide +kernel⟩
  have hpenalty : File.SameLines dinnerPenalties (bytes "red, 2\nNOT fish OR white, 3\n") :=
    ⟨by decide +kernel, by decide +kernel, by decide +kernel⟩
  have hqualitative : File.SameLines dinnerChoices (bytes "meat BT fish IF red\nwhite BT red\n") :=
    ⟨by decide +kernel, by decide +kernel, by decide +kernel⟩
  obtain ⟨hloads, -, hsame⟩ := sameAnswers_of_sameLines Oracle.reliable_exact
    Oracle.reliable_exact {} dinnerAttributes hconstraints hpenalty hqualitative
    { oracle := 0 } { oracle := 0 }
  obtain ⟨p', t', hp'⟩ := hloads.mp ⟨p, t, hp⟩
  exact ⟨p, t, p', t', hp, hp', hsame p t p' t' hp hp'⟩

end Problem

end PreferenceLogic
