import PreferenceLogic.Proofs.Comparison.Outcome
import PreferenceLogic.Proofs.Dialogue
import PreferenceLogic.Proofs.Problem.Lookups
import PreferenceLogic.Proofs.Report.Wording

/-!
# Examples tell the truth

An example compares two feasible objects that are drawn in any way that draws two different ones. It
is reported which of them is preferred, or that they are as good as each other, or that they cannot
be compared. What is reported is what the scores of the two objects say, and it fits with the list
of optimal objects, which is found from the whole table.

Definitions:
* `Problem.Prefers`: the scores of one object are better than those of another one.
* `Report.Statement.Holds`: a statement is what the scores of two objects say.
* `Report.Truthful`: a text tells the truth about two objects.

Results:
* `Problem.Evaluated.about_and_holds_iff`: the outcome of a comparison is the only statement that
  holds of the two objects.
* `Problem.exists_samplePair`: two different feasible objects are sampled.
* `Dialogue.adds_exemplify`: the sampled objects are reported with the outcome of their comparison.
* `Dialogue.exemplify_truthful`: what is reported tells the truth.
-/

namespace PreferenceLogic

/-! ## Truth of statements -/

namespace Problem

/-- An object is strictly preferred to another one: its total is lower, or its degrees are nowhere
worse and somewhere better. -/
def Prefers (p : Problem) : Logic → Nat → Nat → Prop
  | .penalty, x, y => ∃ m n, p.penalties.total? x = some m ∧ p.penalties.total? y = some n ∧ m < n
  | .qualitative, x, y => ∃ ds es, p.degrees.degrees? x = some ds ∧
      p.degrees.degrees? y = some es ∧ NoWorse ds es ∧ ∃ place, BetterAt ds es place

end Problem

/-- A statement is what the scores of two objects say in a logic. -/
def Report.Statement.Holds (p : Problem) (logic : Logic) : Report.Statement → Prop
  | preferred x y => p.Prefers logic x y
  | equivalent x y => logic = .penalty ∧
      ∃ total, p.penalties.total? x = some total ∧ p.penalties.total? y = some total
  | equal x y => logic = .qualitative ∧
      ∃ degrees, p.degrees.degrees? x = some degrees ∧ p.degrees.degrees? y = some degrees
  | incomparable x y => logic = .qualitative ∧
      ∃ ds es, p.degrees.degrees? x = some ds ∧ p.degrees.degrees? y = some es ∧
        (∃ place, BetterAt ds es place) ∧ ∃ place, BetterAt es ds place

namespace Problem

variable {p : Problem} {x y : Nat} {c : Comparison}

/-- Two objects are compared by their scores. -/
theorem exists_scores_iff {α : Type} {score? : Nat → Option α} {outcome : α → α → Comparison} :
    (do let m ← scoreOf score? x
        let n ← scoreOf score? y
        return outcome m n : Except Error Comparison) = .ok c ↔
      ∃ m n, score? x = some m ∧ score? y = some n ∧ outcome m n = c := by
  simp only [bind_eq_ok_iff, scoreOf_eq_ok_iff]
  constructor
  · rintro ⟨m, hm, n, hn, hc⟩
    exact ⟨m, n, hm, hn, Except.ok.inj hc⟩
  · rintro ⟨m, n, hm, hn, hc⟩
    exact ⟨m, hm, n, hn, congrArg Except.ok hc⟩

theorem compare_penalty_eq_ok_iff :
    p.compare .penalty x y = .ok c ↔ ∃ m n, p.penalties.total? x = some m ∧
      p.penalties.total? y = some n ∧ Comparison.ofTotals m n = c := exists_scores_iff

theorem compare_qualitative_eq_ok_iff :
    p.compare .qualitative x y = .ok c ↔ ∃ ds es, p.degrees.degrees? x = some ds ∧
      p.degrees.degrees? y = some es ∧ Comparison.ofDegrees ds es = c := exists_scores_iff

namespace Evaluated

variable {σ : Type} {o : Oracle σ} {config : Config} {v : Vocabulary} {constraints : Formula}
  {penaltyRules : List PenaltyRule} {choiceRules : List ChoiceRule}
  (h : p.Evaluated o config v constraints penaltyRules choiceRules)

include h

/-- All objects have degrees for the same rules. -/
theorem length_eq_of_degrees? {ds es : List Degree} (hx : p.degrees.degrees? x = some ds)
    (hy : p.degrees.degrees? y = some es) : ds.length = es.length := by
  obtain ⟨row, hrow, rfl⟩ := Option.map_eq_some_iff.mp hx
  obtain ⟨other, hother, rfl⟩ := Option.map_eq_some_iff.mp hy
  rw [lookup?_eq_some_iff h.pairwise_degrees] at hrow hother
  rw [DegreeTable.length_degrees h.degrees hrow.1, DegreeTable.length_degrees h.degrees hother.1]

theorem prefers_iff {logic : Logic} : p.Prefers logic x y ↔ p.compare logic x y = .ok .first := by
  cases logic with
  | penalty =>
    rw [compare_penalty_eq_ok_iff]
    simp only [Prefers, Comparison.ofTotals_eq_first_iff]
  | qualitative =>
    rw [compare_qualitative_eq_ok_iff]
    refine exists_congr fun ds => exists_congr fun es => ?_
    refine and_congr_right fun hx => and_congr_right fun hy => ?_
    have hlength := h.length_eq_of_degrees? hx hy
    rw [Comparison.ofDegrees_eq_first_iff_betterAt hlength, noWorse_iff_not_betterAt hlength]

omit h in
theorem holds_equivalent_iff {logic : Logic} : (Report.Statement.equivalent x y).Holds p logic ↔
    logic = .penalty ∧ p.compare logic x y = .ok .equal := by
  refine and_congr_right ?_
  rintro rfl
  rw [compare_penalty_eq_ok_iff]
  constructor
  · rintro ⟨total, hx, hy⟩
    exact ⟨total, total, hx, hy, Comparison.ofTotals_eq_equal_iff.mpr rfl⟩
  · rintro ⟨m, n, hx, hy, hequal⟩
    obtain rfl := Comparison.ofTotals_eq_equal_iff.mp hequal
    exact ⟨m, hx, hy⟩

theorem holds_equal_iff {logic : Logic} : (Report.Statement.equal x y).Holds p logic ↔
    logic = .qualitative ∧ p.compare logic x y = .ok .equal := by
  refine and_congr_right ?_
  rintro rfl
  rw [compare_qualitative_eq_ok_iff]
  constructor
  · rintro ⟨degrees, hx, hy⟩
    exact ⟨degrees, degrees, hx, hy, (Comparison.ofDegrees_eq_equal_iff rfl).mpr rfl⟩
  · rintro ⟨ds, es, hx, hy, hequal⟩
    obtain rfl := (Comparison.ofDegrees_eq_equal_iff (h.length_eq_of_degrees? hx hy)).mp hequal
    exact ⟨ds, hx, hy⟩

theorem holds_incomparable_iff {logic : Logic} :
    (Report.Statement.incomparable x y).Holds p logic ↔
      logic = .qualitative ∧ p.compare logic x y = .ok .incomparable := by
  refine and_congr_right ?_
  rintro rfl
  rw [compare_qualitative_eq_ok_iff]
  refine exists_congr fun ds => exists_congr fun es => ?_
  refine and_congr_right fun hx => and_congr_right fun hy => ?_
  exact (Comparison.ofDegrees_eq_incomparable_iff (h.length_eq_of_degrees? hx hy)).symm

/-- What the outcome of a comparison says is the only statement about the two objects that holds. -/
theorem about_and_holds_iff {logic : Logic} {a b : Nat} (hcompare : p.compare logic a b = .ok c)
    {w : Report.Statement} :
    w.About a b ∧ w.Holds p logic ↔ w = .ofOutcome logic a b c := by
  have hback := (h.comparesWithin logic).swap a b c hcompare
  constructor
  · -- a statement that holds tells the outcome, for either order of the objects
    rintro ⟨habout, hholds⟩
    cases w with
    | preferred x y =>
      rw [Report.Statement.Holds, h.prefers_iff] at hholds
      rcases habout with ⟨rfl, rfl⟩ | ⟨rfl, rfl⟩
      · obtain rfl := Except.ok.inj (hcompare.symm.trans hholds)
        rfl
      · have hswap := (h.comparesWithin logic).swap _ _ _ hholds
        obtain rfl := Except.ok.inj (hcompare.symm.trans hswap)
        rfl
    | equivalent x y =>
      obtain ⟨rfl, rfl⟩ := habout
      obtain ⟨rfl, hequal⟩ := holds_equivalent_iff.mp hholds
      obtain rfl := Except.ok.inj (hcompare.symm.trans hequal)
      rfl
    | equal x y =>
      obtain ⟨rfl, rfl⟩ := habout
      obtain ⟨rfl, hequal⟩ := h.holds_equal_iff.mp hholds
      obtain rfl := Except.ok.inj (hcompare.symm.trans hequal)
      rfl
    | incomparable x y =>
      obtain ⟨rfl, rfl⟩ := habout
      obtain ⟨rfl, hincomparable⟩ := h.holds_incomparable_iff.mp hholds
      obtain rfl := Except.ok.inj (hcompare.symm.trans hincomparable)
      rfl
  · rintro rfl
    cases c with
    | first => exact ⟨.inl ⟨rfl, rfl⟩, h.prefers_iff.mpr hcompare⟩
    | second => exact ⟨.inr ⟨rfl, rfl⟩, h.prefers_iff.mpr hback⟩
    | equal =>
      cases logic with
      | penalty => exact ⟨⟨rfl, rfl⟩, holds_equivalent_iff.mpr ⟨rfl, hcompare⟩⟩
      | qualitative => exact ⟨⟨rfl, rfl⟩, h.holds_equal_iff.mpr ⟨rfl, hcompare⟩⟩
    | incomparable =>
      cases logic with
      | penalty =>
        -- totals are always comparable
        obtain ⟨m, n, -, -, hincomparable⟩ := compare_penalty_eq_ok_iff.mp hcompare
        exact absurd hincomparable (Comparison.ofTotals_ne_incomparable m n)
      | qualitative => exact ⟨⟨rfl, rfl⟩, h.holds_incomparable_iff.mpr ⟨rfl, hcompare⟩⟩

/-! ## Optimal objects -/

/-- An object to which another one is preferred is not optimal. -/
theorem not_mem_optimal_of_prefers {logic : Logic} (hx : x ∈ p.feasible)
    (hprefers : p.Prefers logic x y) : y ∉ p.optimal logic := by
  obtain ⟨ρ, number, prefer, rows, hranked⟩ := h.exists_ranked logic
  rw [hranked.mem_optimal_iff]
  exact fun hy => hy.2 ⟨x, hx, h.prefers_iff.mp hprefers⟩

/-- Objects to which the same objects are preferred are both optimal, or none of them is. -/
theorem mem_optimal_congr {logic : Logic} (hx : x ∈ p.feasible) (hy : y ∈ p.feasible)
    (hsame : ∀ z, p.Prefers logic z x ↔ p.Prefers logic z y) :
    x ∈ p.optimal logic ↔ y ∈ p.optimal logic := by
  obtain ⟨ρ, number, prefer, rows, hranked⟩ := h.exists_ranked logic
  rw [hranked.mem_optimal_iff, hranked.mem_optimal_iff]
  simp only [hx, hy, true_and, ← h.prefers_iff, hsame]

end Evaluated

/-! ## Samples -/

section

variable (sampler : Sampler) {g : Generator}

theorem samplePair_of_lt (hlength : p.feasible.length < 2) :
    (samplePair sampler p).run.run g = (.error (.emptySample p.feasible.length), g) := by
  show samplePair sampler p g = _
  rw [samplePair, dif_neg (by omega)]

/-- Two objects are sampled that are feasible and different. -/
theorem exists_samplePair (hsorted : p.feasible.Pairwise (· < ·))
    (hlength : 2 ≤ p.feasible.length) :
    ∃ a ∈ p.feasible, ∃ b ∈ p.feasible, a ≠ b ∧
      ∃ g', (samplePair sampler p).run.run g = (.ok (a, b), g') := by
  have hnodup : p.feasible.Nodup := hsorted.imp fun hlt => Nat.ne_of_lt hlt
  have hne := sampler.ne p.feasible.length hlength g
  generalize hdraw : sampler.draw p.feasible.length hlength g = drawn at hne
  obtain ⟨⟨i, j⟩, g'⟩ := drawn
  refine ⟨p.feasible[i], List.getElem_mem _, p.feasible[j], List.getElem_mem _,
    fun heq => hne (Fin.ext ?_), g', ?_⟩
  · -- numbers are not repeated, so the same one stands at one place only
    exact hnodup.getElem_inj_iff.mp heq
  · show samplePair sampler p g = _
    rw [samplePair, dif_pos hlength]
    simp only [hdraw]

/-- The sampled objects are compared. -/
theorem sampleExample_of_compare {logic : Logic} {a b : Nat} {g' : Generator}
    (hpair : (samplePair sampler p).run.run g = (.ok (a, b), g'))
    (hcompare : p.compare logic a b = .ok c) :
    (sampleExample sampler p logic).run.run g = (.ok ⟨a, b, c⟩, g') := by
  have hrest : (show Sampling Example from do
      let outcome ← ExceptT.mk (pure (p.compare logic a b))
      return ⟨a, b, outcome⟩).run.run g' = (.ok ⟨a, b, c⟩, g') := by
    rw [hcompare]
    rfl
  rw [sampleExample, ExceptT.run_bind, StateT.run_bind, hpair]
  exact hrest

theorem sampleExample_of_lt (logic : Logic) (hlength : p.feasible.length < 2) :
    (sampleExample sampler p logic).run.run g = (.error (.emptySample p.feasible.length), g) := by
  rw [sampleExample, ExceptT.run_bind, StateT.run_bind, samplePair_of_lt sampler hlength]
  rfl

end

end Problem

/-! ## Reports -/

namespace Dialogue

variable {p : Problem} (sampler : Sampler) {logic : Logic} {g : Generator}

theorem adds_exemplify_of_lt (hlength : p.feasible.length < 2) :
    (exemplify sampler p logic).Adds g (.error (.problem (.emptySample p.feasible.length)))
      [] g := by
  have hsample := adds_sample (p.sampleExample sampler logic) g
  rw [Problem.sampleExample_of_lt sampler logic hlength] at hsample
  exact hsample.bind_error _

theorem adds_exemplify {a b : Nat} {c : Comparison} {g' : Generator}
    (hpair : (p.samplePair sampler).run.run g = (.ok (a, b), g'))
    (hcompare : p.compare logic a b = .ok c) :
    (exemplify sampler p logic).Adds g (.ok ())
      (Utf8.encode (Report.exampleOf a b (.ofOutcome logic a b c))) g' := by
  have hsample := adds_sample (p.sampleExample sampler logic) g
  rw [Problem.sampleExample_of_compare sampler hpair hcompare] at hsample
  rw [← Report.exemplification_eq, ← List.nil_append (Utf8.encode _)]
  exact hsample.bind (adds_print _ g')

end Dialogue

/-- A text tells the truth about two objects in a logic. Which objects they are and how they compare
can be seen from the text, and the names that are listed as optimal fit with it. -/
structure Report.Truthful (p : Problem) (logic : Logic) (a b : Nat) (t : Text) : Prop where
  /-- The text makes a statement about the two objects. -/
  exists_statement : ∃ w, t = exampleOf a b w
  /-- It makes a statement exactly if the statement is about the two objects and holds. -/
  eq_iff : ∀ x y w, t = exampleOf x y w ↔ x = a ∧ y = b ∧ w.About a b ∧ w.Holds p logic
  /-- An object to which the other one is preferred is not listed as optimal. -/
  not_listed : ∀ x y, t = exampleOf a b (.preferred x y) →
    Object.nameOf y ∉ listed (optimization p logic)
  /-- Of two objects that are as good as each other, both are listed or none. -/
  listed_iff : t = exampleOf a b (.equivalent a b) ∨ t = exampleOf a b (.equal a b) →
    (Object.nameOf a ∈ listed (optimization p logic) ↔
      Object.nameOf b ∈ listed (optimization p logic))

variable {σ : Type} {o : Oracle σ} {config : Config} {v : Vocabulary} {constraints : Formula}
  {penaltyRules : List PenaltyRule} {choiceRules : List ChoiceRule} {p : Problem}

theorem Problem.Evaluated.truthful (h : p.Evaluated o config v constraints penaltyRules choiceRules)
    {logic : Logic} {a b : Nat} {c : Comparison} (ha : a ∈ p.feasible) (hb : b ∈ p.feasible)
    (hcompare : p.compare logic a b = .ok c) :
    Report.Truthful p logic a b (Report.exampleOf a b (.ofOutcome logic a b c)) := by
  have heq : ∀ x y w, Report.exampleOf a b (.ofOutcome logic a b c) = Report.exampleOf x y w ↔
      x = a ∧ y = b ∧ w.About a b ∧ w.Holds p logic := by
    intro x y w
    rw [Report.exampleOf_inj, h.about_and_holds_iff hcompare, eq_comm, @eq_comm _ b,
      @eq_comm _ _ w]
  refine ⟨⟨_, rfl⟩, heq, fun x y hpreferred => ?_, fun hsame => ?_⟩
  · obtain ⟨-, -, habout, hholds⟩ := (heq _ _ _).mp hpreferred
    rw [Report.nameOf_mem_listed_iff]
    rcases habout with ⟨rfl, rfl⟩ | ⟨rfl, rfl⟩
    · exact h.not_mem_optimal_of_prefers ha hholds
    · exact h.not_mem_optimal_of_prefers hb hholds
  · rw [Report.nameOf_mem_listed_iff, Report.nameOf_mem_listed_iff]
    refine h.mem_optimal_congr ha hb fun z => ?_
    rcases hsame with hequivalent | hequal
    · obtain ⟨-, -, -, rfl, total, hx, hy⟩ := (heq _ _ _).mp hequivalent
      rw [Problem.Prefers, Problem.Prefers, hx, hy]
    · obtain ⟨-, -, -, rfl, degrees, hx, hy⟩ := (heq _ _ _).mp hequal
      rw [Problem.Prefers, Problem.Prefers, hx, hy]

namespace Dialogue

/-- **Examples.** Where fewer than two objects are feasible, an example fails, nothing is written
and nothing is drawn. Otherwise the example names two different feasible objects and tells the truth
about them, whatever is drawn: one is strictly preferred exactly if its total is lower, or its
degrees are nowhere worse and somewhere better; the objects are equivalent or equal exactly if they
have the same total or the same degrees; they are incomparable exactly if each is somewhere better.
The less preferred object is not among those that the other report lists as optimal, and of two
objects that are as good as each other both are or none. -/
theorem exemplify_truthful {s t : Session σ}
    (hreturns : (Problem.evaluate o config v constraints penaltyRules choiceRules).Returns s p t)
    (sampler : Sampler) (logic : Logic) (g : Generator) :
    (p.feasible.length < 2 → (exemplify sampler p logic).Adds g
      (.error (.problem (.emptySample p.feasible.length))) [] g) ∧
    (2 ≤ p.feasible.length → ∃ a ∈ p.feasible, ∃ b ∈ p.feasible, a ≠ b ∧ ∃ text g',
      (exemplify sampler p logic).Adds g (.ok ()) (Utf8.encode text) g' ∧
        Report.Truthful p logic a b text) ∧
    (Task.perform sampler p logic .optimization).Adds g (.ok ())
      (Utf8.encode (Report.optimization p logic)) g := by
  have h := Problem.evaluated_of_returns hreturns
  refine ⟨adds_exemplify_of_lt sampler, fun hlength => ?_, adds_print _ g⟩
  obtain ⟨a, ha, b, hb, hne, g', hpair⟩ :=
    Problem.exists_samplePair sampler h.pairwise_feasible hlength
  obtain ⟨c, hcompare⟩ := ((h.comparesWithin logic).exists_ok_iff a b).mpr ⟨ha, hb⟩
  exact ⟨a, ha, b, hb, hne, _, g', adds_exemplify sampler hpair hcompare, h.truthful ha hb hcompare⟩

/-- Two of the three feasible dinners are compared. As no two totals of dinners are the same, one of
both is preferred, whatever is drawn. -/
theorem exemplify_truthful_dinner :
    ∃ p t, (Problem.load Oracle.exact {} (Problem.dinner "fish OR NOT white\n")).Returns
        { oracle := 0 } p t ∧
      ∀ g, ∃ a ∈ [0, 2, 3], ∃ b ∈ [0, 2, 3], a ≠ b ∧ ∃ text g',
        (Task.perform .standard p .penalty .exemplification).Adds g (.ok ()) (Utf8.encode text) g' ∧
        Report.Truthful p .penalty a b text ∧
        ∃ x y, text = Report.exampleOf a b (.preferred x y) := by
  obtain ⟨p, t, hload, hp⟩ := Problem.exists_load_dinner
  obtain ⟨hids, hrows, -⟩ := Prod.mk.inj hp |>.imp_right Prod.mk.inj
  obtain ⟨v, f, penaltyRules, choiceRules, -, u, hreturns⟩ := Problem.exists_evaluate_of_load hload
  have hlength : p.feasible.length = [0, 2, 3].length := congrArg List.length hids
  have htotals : ∀ a ∈ [0, 2, 3], ∀ b ∈ [0, 2, 3],
      p.penalties.total? a = p.penalties.total? b → a = b := by
    unfold PenaltyTable.total? PenaltyTable.row?
    rw [hrows]
    decide +kernel
  refine ⟨p, t, hload, fun g => ?_⟩
  obtain ⟨-, hsample, -⟩ := exemplify_truthful hreturns .standard .penalty g
  obtain ⟨a, ha, b, hb, hne, text, g', hadds, htruthful⟩ := hsample (hlength ▸ by decide)
  rw [hids] at ha hb
  refine ⟨a, ha, b, hb, hne, text, g', hadds, htruthful, ?_⟩
  obtain ⟨w, hw⟩ := htruthful.exists_statement
  obtain ⟨-, -, habout, hholds⟩ := (htruthful.eq_iff a b w).mp hw
  cases w with
  | preferred x y => exact ⟨x, y, hw⟩
  | equivalent x y =>
    obtain ⟨rfl, rfl⟩ := habout
    obtain ⟨-, total, hx, hy⟩ := hholds
    exact absurd (htotals x ha y hb (hx.trans hy.symm)) hne
  | equal x y => cases hholds.1
  | incomparable x y => cases hholds.1

end Dialogue

end PreferenceLogic
