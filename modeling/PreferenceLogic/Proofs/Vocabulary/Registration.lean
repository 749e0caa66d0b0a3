import PreferenceLogic.Proofs.Vocabulary.Table

/-!
# Registering attributes call by call

Attributes are registered in a table one after the other, each given by its parts or by a
declaration. A call that succeeds returns the atom of the new attribute. A call that fails has
changed nothing by then, neither the attributes nor the index of the labels. So after any calls,
some of which have failed, the index and the attributes are inverse to each other.

Definitions:
* `Registration.call`, `Registration.run`: one call on a table, and several calls.
* `Registration.Fails`: the calls that fail, and why.
* `AttributeTable.OneToOne`: the labels and the literals are inverse to each other.

Results:
* `Registration.call_cases`: what a call does to a consistent table.
* `Registration.run_invariant`: several calls keep a table consistent and only add attributes, and
  the answers count them.
* `Registration.oneToOne_of_run`: what holds after any calls.
-/

namespace PreferenceLogic

/-! ## Calls -/

/-- A call that registers an attribute: given by its parts, or by a declaration. -/
inductive Registration where
  | add (a : Attribute)
  | declare (t : Text)
deriving DecidableEq, Repr

namespace Registration

/-- One call on a table. -/
def call : Registration → Registering Fault Nat
  | add a => (AttributeTable.add a).adapt .label
  | declare t => AttributeTable.declare t

/-- Calls that are made one after the other, each on the table that it finds, and what they
return. -/
def run (calls : List Registration) : StateM AttributeTable (List (Except Fault Nat)) :=
  calls.mapM fun r => r.call.run

/-- The attribute that a call is about. -/
def Gives : Registration → Attribute → Prop
  | add a, b => a = b
  | declare t, b => Attribute.Declares t b

/-- A call fails because its text is no declaration, or because its attribute is refused. -/
inductive Fails (table : AttributeTable) : Registration → Fault → Prop where
  | undeclared {t : Text} (h : ∀ a, ¬ Attribute.Declares t a) :
    Fails table (.declare t) (.declaration t)
  | refused {r : Registration} {a : Attribute} {label : Text} (ha : r.Gives a)
    (h : a.RefusedBy table.labels label) : Fails table r (.label (.duplicate label))

variable {table : AttributeTable} {r : Registration} {a : Attribute}

theorem Gives.unique {b : Attribute} (ha : r.Gives a) (hb : r.Gives b) : a = b := by
  cases r with
  | add _ => exact ha.symm.trans hb
  | declare t =>
    have hparse := Attribute.parse_eq_ok_iff.mpr ha
    rw [Attribute.parse_eq_ok_iff.mpr hb] at hparse
    exact (Except.ok.inj hparse).symm

/-- A call registers the attribute that it is about. -/
theorem run_call_of_gives (ha : r.Gives a) (table : AttributeTable) :
    r.call.run.run table = (((AttributeTable.add a).run.run table).1.mapError .label,
      ((AttributeTable.add a).run.run table).2) := by
  cases r with
  | add b =>
    obtain rfl : b = a := ha
    rfl
  | declare t => rw [call, AttributeTable.run_declare, Attribute.parse_eq_ok_iff.mpr ha]

/-- A call that is about an attribute is refused and changes nothing, or it adds the attribute and
returns its atom. -/
theorem call_cases_of_gives (h : table.Consistent) (ha : r.Gives a) :
    (∃ label, a.RefusedBy table.labels label ∧
      r.call.run.run table = (.error (.label (.duplicate label)), table)) ∨
      (∀ label, ¬ a.RefusedBy table.labels label) ∧
        r.call.run.run table = (.ok table.size, table.register a) ∧
        (table.register a).Consistent := by
  rw [run_call_of_gives ha]
  rcases AttributeTable.add_cases h a with ⟨label, hrefused, hrun⟩ | ⟨hnot, hrun, hlater⟩
  · rw [hrun]
    exact .inl ⟨label, hrefused, rfl⟩
  · rw [hrun]
    exact .inr ⟨hnot, rfl, hlater⟩

/-- A call on a consistent table fails and changes nothing, or it adds an attribute that is not
refused and returns its atom. -/
theorem call_cases (h : table.Consistent) (r : Registration) :
    (∃ fault, r.Fails table fault ∧ r.call.run.run table = (.error fault, table)) ∨
      ∃ a, r.Gives a ∧ (∀ label, ¬ a.RefusedBy table.labels label) ∧
        r.call.run.run table = (.ok table.size, table.register a) ∧
        (table.register a).Consistent := by
  by_cases hgives : ∃ a, r.Gives a
  · obtain ⟨a, ha⟩ := hgives
    rcases call_cases_of_gives h ha with ⟨label, hrefused, hrun⟩ | hadded
    · exact .inl ⟨_, .refused ha hrefused, hrun⟩
    · exact .inr ⟨a, ha, hadded⟩
  · cases r with
    | add a => exact absurd ⟨a, rfl⟩ hgives
    | declare t =>
      have hnone : ∀ a, ¬ Attribute.Declares t a := fun a ha => hgives ⟨a, ha⟩
      have hparse := Attribute.parse_eq_error_iff.mpr ⟨rfl, hnone⟩
      refine .inl ⟨_, .undeclared hnone, ?_⟩
      rw [call, AttributeTable.run_declare, hparse]

theorem Fails.not_of_gives (ha : r.Gives a) (hnot : ∀ label, ¬ a.RefusedBy table.labels label)
    (fault : Fault) : ¬ r.Fails table fault := by
  intro hfails
  cases hfails with
  | undeclared hnone => exact hnone a ha
  | refused hb hrefused =>
    obtain rfl := ha.unique hb
    exact hnot _ hrefused

theorem Fails.unique {fault other : Fault} (h : r.Fails table fault) (h' : r.Fails table other) :
    fault = other := by
  cases h with
  | undeclared hnone =>
    cases h' with
    | undeclared _ => rfl
    | refused ha _ => exact absurd ha (hnone _)
  | refused ha hrefused =>
    cases h' with
    | undeclared hnone => exact absurd ha (hnone _)
    | refused hb hrefused' =>
      obtain rfl := ha.unique hb
      rw [hrefused.unique hrefused']

/-- A call on a consistent table fails exactly for its fault, and leaves the table that it finds. -/
theorem call_eq_error_iff (h : table.Consistent) {fault : Fault} :
    (r.call.run.run table).1 = .error fault ↔ r.Fails table fault := by
  rcases call_cases h r with ⟨other, hfails, hrun⟩ | ⟨a, ha, hnot, hrun, -⟩
  · rw [hrun]
    refine ⟨fun heq => ?_, fun hfault => congrArg Except.error (hfails.unique hfault)⟩
    cases heq
    exact hfails
  · rw [hrun]
    exact iff_of_false (by simp) (Fails.not_of_gives ha hnot fault)

/-! ## Several calls -/

theorem run_nil (table : AttributeTable) : (run []).run table = ([], table) := rfl

theorem run_cons (r : Registration) (rest : List Registration) (table : AttributeTable) :
    (run (r :: rest)).run table =
      ((r.call.run.run table).1 :: ((run rest).run (r.call.run.run table).2).1,
        ((run rest).run (r.call.run.run table).2).2) := by
  rw [run, List.mapM_cons]
  rfl

theorem run_append (before after : List Registration) (table : AttributeTable) :
    (run (before ++ after)).run table =
      (((run before).run table).1 ++ ((run after).run ((run before).run table).2).1,
        ((run after).run ((run before).run table).2).2) := by
  induction before generalizing table with
  | nil => rfl
  | cons r before ih => simp only [List.cons_append, run_cons, ih]

theorem length_run (calls : List Registration) (table : AttributeTable) :
    ((run calls).run table).1.length = calls.length := by
  induction calls generalizing table with
  | nil => rfl
  | cons r rest ih =>
    rw [run_cons]
    exact congrArg Nat.succ (ih _)

/-- Calls keep a table consistent and only add attributes, and those that succeed return the new
atoms in order. -/
theorem run_invariant (h : table.Consistent) (calls : List Registration) :
    ((run calls).run table).2.Consistent ∧
      ∃ added, ((run calls).run table).2.size = table.size + added ∧
        ((run calls).run table).1.filterMap Except.toOption = List.range' table.size added := by
  induction calls generalizing table with
  | nil => exact ⟨h, 0, rfl, rfl⟩
  | cons r rest ih =>
    rw [run_cons]
    rcases call_cases h r with ⟨fault, -, hrun⟩ | ⟨a, -, -, hrun, hlater⟩
    · rw [hrun]
      exact ih h
    · rw [hrun]
      obtain ⟨hconsistent, added, hsize, hanswers⟩ := ih hlater
      have hone : (table.register a).size = table.size + 1 := Array.size_push _
      rw [hone] at hsize hanswers
      refine ⟨hconsistent, added + 1, by dsimp only; omega, ?_⟩
      rw [List.range'_succ, ← hanswers]
      rfl

end Registration

/-! ## Labels and literals -/

/-- The labels of a table are pairwise distinct, two for each attribute. Each literal up to the last
attribute has a label that resolves to it, and what resolves is the label of its literal. Beyond the
attributes there is nothing. -/
structure AttributeTable.OneToOne (table : AttributeTable) : Prop where
  nodup_labels : table.labels.Nodup
  length_labels : table.labels.length = 2 * table.size
  resolve_label : ∀ l : Literal, l.atom < table.size →
    ∃ label, table.label? l = some label ∧ table.resolve label = .ok l
  label_resolve : ∀ label l, table.resolve label = .ok l → table.label? l = some label
  beyond : ∀ atom, table.size ≤ atom →
    table.attribute? atom = none ∧ ∀ positive, table.label? ⟨atom, positive⟩ = none

theorem length_labelsOf (attributes : List Attribute) :
    (labelsOf attributes).length = 2 * attributes.length := by
  induction attributes with
  | nil => rfl
  | cons a rest ih =>
    rw [labelsOf_cons, List.length_cons, List.length_cons, List.length_cons, ih]
    omega

theorem AttributeTable.Consistent.oneToOne {table : AttributeTable} (h : table.Consistent) :
    table.OneToOne where
  nodup_labels := h.nodup_labels
  length_labels := length_labelsOf table.attributes.toList
  resolve_label l hl := by
    have hlabel : table.label? l = some (table.attributes[l.atom].label l.positive) := by
      rw [label?, attribute?, Array.getElem?_eq_getElem hl, Option.map_some]
    refine ⟨_, hlabel, ?_⟩
    rw [resolve, (h.index_iff _ l).mpr hlabel]
  label_resolve label l hresolve := by
    rw [resolve] at hresolve
    split at hresolve
    · rename_i m hindex
      cases hresolve
      exact (h.index_iff label l).mp hindex
    · cases hresolve
  beyond atom hatom := by
    have hnone : table.attribute? atom = none := Array.getElem?_eq_none hatom
    exact ⟨hnone, fun positive => by rw [label?, hnone, Option.map_none]⟩

namespace Registration

/-- **Registration.** After any calls on the empty table, some of which may have failed, the labels
and the literals are inverse to each other, and the calls that have succeeded have returned the
atoms in order. Each call fails exactly if its text is no declaration or its attribute is refused,
with this as the fault, and a call that fails leaves the table that it has found. -/
theorem oneToOne_of_run (calls : List Registration) :
    ((run calls).run .empty).2.OneToOne ∧
      ((run calls).run .empty).1.filterMap Except.toOption =
        List.range ((run calls).run .empty).2.size ∧
      ∀ before r after, calls = before ++ r :: after →
        ∃ answer, ((run calls).run .empty).1[before.length]? = some answer ∧
          (∀ fault, answer = .error fault ↔ r.Fails ((run before).run .empty).2 fault) ∧
          ∀ fault, answer = .error fault →
            ((run (before ++ [r])).run .empty).2 = ((run before).run .empty).2 := by
  have hrun := fun calls => run_invariant AttributeTable.consistent_empty calls
  refine ⟨(hrun calls).1.oneToOne, ?_, ?_⟩
  · obtain ⟨-, added, hsize, hanswers⟩ := hrun calls
    have hempty : AttributeTable.empty.size = 0 := rfl
    rw [hempty, Nat.zero_add] at hsize
    rw [hanswers, hsize, hempty, List.range_eq_range']
  · rintro before r after rfl
    have hfound := (hrun before).1
    refine ⟨(r.call.run.run ((run before).run .empty).2).1, ?_,
      fun fault => call_eq_error_iff hfound, ?_⟩
    · rw [run_append, ← length_run before .empty, List.getElem?_append_right (Nat.le_refl _),
        Nat.sub_self, run_cons, List.getElem?_cons_zero]
    · intro fault hfault
      rw [run_append, run_cons, run_nil]
      rcases call_cases hfound r with ⟨_, -, hcall⟩ | ⟨_, -, -, hcall, -⟩
      · rw [hcall]
      · rw [hcall] at hfault
        cases hfault

/-- Declares the size of a gift. -/
def sizeCall : Registration := .declare "size: big, small".toList

/-- Adds the weight of a gift, with a new label and with one that the size has as well. -/
def weightCall : Registration := .add ⟨"weight".toList, "heavy".toList, "small".toList⟩

/-- The size and the colour of a gift, and between them a known label, a text without a colon and
a label for both values. -/
def giftCalls : List Registration :=
  [sizeCall, weightCall, .declare "colour red, blue".toList,
    .add ⟨"colour".toList, "red".toList, "red".toList⟩, .declare "colour: red, blue".toList]

/-- The second call leaves nothing behind, not even the label that is new. -/
theorem oneToOne_of_run_gifts :
    ((run giftCalls).run .empty).1 = [.ok 0, .error (.label (.duplicate "small".toList)),
      .error (.declaration "colour red, blue".toList), .error (.label (.duplicate "red".toList)),
      .ok 1] ∧
    ((run giftCalls).run .empty).2.OneToOne ∧
    weightCall.Fails ((run [sizeCall]).run .empty).2 (.label (.duplicate "small".toList)) ∧
    ((run [sizeCall, weightCall]).run .empty).2 = ((run [sizeCall]).run .empty).2 := by
  have hanswers : ((run giftCalls).run .empty).1 = [.ok 0,
      .error (.label (.duplicate "small".toList)), .error (.declaration "colour red, blue".toList),
      .error (.label (.duplicate "red".toList)), .ok 1] := by decide +kernel
  obtain ⟨honeToOne, -, hcalls⟩ := oneToOne_of_run giftCalls
  obtain ⟨answer, hanswer, hfails, hleaves⟩ := hcalls [sizeCall] weightCall _ rfl
  rw [hanswers] at hanswer
  cases hanswer
  exact ⟨hanswers, honeToOne, (hfails _).mp rfl, hleaves _ rfl⟩

end Registration

end PreferenceLogic
