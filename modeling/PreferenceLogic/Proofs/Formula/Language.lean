import PreferenceLogic.Proofs.Formula.Meaning
import PreferenceLogic.Proofs.Text.Joined
import PreferenceLogic.Proofs.Text.Trim

/-!
# The language of formulas

A literal is spelled as a label, or as the negation marker and a label, with blanks around and
between them as one likes. A formula is written as its clauses, joined by the conjunction, and a
clause as the spellings of its literals, joined by the disjunction. Reading accepts exactly what is
so written, and gives the clauses that were written.

Definitions:
* `Formula.IsMarker`: the negation marker, each of its letters capital or small.
* `Formula.Spells`: a text spells a literal.
* `Formula.Written`: a text is written as some clauses.

Results:
* `Formula.spells_iff_words`, `Formula.parseLiteral_eq_ok_iff`: the words of a text decide what it
  spells, and reading a literal finds it.
* `Formula.written_trim_iff`: blanks at the ends of a text do not matter.
* `Formula.mem_words_of_parse`: the words that a formula is written with.
* `Formula.parse_iff_written`: reading accepts exactly the written formulas.
-/

namespace PreferenceLogic

/-! ## The negation marker -/

theorem toUpper_eq_iff {c capital : Char} (h : capital.isUpper = true) :
    c.toUpper = capital ↔ c = capital ∨ c = capital.toLower := by
  have hA : ('A'.val).toNat = 65 := rfl
  have hZ : ('Z'.val).toNat = 90 := rfl
  have ha : ('a'.val).toNat = 97 := rfl
  have hz : ('z'.val).toNat = 122 := rfl
  have hdown : ('a'.val - 'A'.val).toNat = 32 := rfl
  have hup : ('A'.val - 'a'.val).toNat = 2 ^ 32 - 32 := rfl
  have hcapital : capital.val ≥ 'A'.val ∧ capital.val ≤ 'Z'.val := of_decide_eq_true h
  have hlower : capital.toLower.toNat = capital.toNat + 32 := by
    unfold Char.toLower
    rw [dif_pos hcapital]
    simp only [ge_iff_le, UInt32.le_iff_toNat_le] at hcapital
    simp only [Char.toNat, UInt32.toNat_add]
    omega
  simp only [ge_iff_le, UInt32.le_iff_toNat_le] at hcapital
  rw [← Char.toNat_inj, ← Char.toNat_inj, ← Char.toNat_inj, hlower]
  unfold Char.toUpper
  split
  · rename_i hc
    simp only [UInt32.le_iff_toNat_le] at hc
    simp only [Char.toNat, UInt32.toNat_add]
    omega
  · rename_i hc
    simp only [UInt32.le_iff_toNat_le] at hc
    simp only [Char.toNat]
    omega

namespace Formula

/-- The negation marker, each of its letters capital or small. -/
def IsMarker (word : Text) : Prop :=
  List.Forall₂ (fun letter capital => letter = capital ∨ letter = capital.toLower) word
    negationMarker

theorem isNegation_iff {word : Text} : isNegation word = true ↔ IsMarker word := by
  have hcapitals : ∀ capital ∈ negationMarker, capital.isUpper = true :=
    List.all_eq_true.mp (by decide)
  have hletters : word.map Char.toUpper = negationMarker ↔
      List.Forall₂ (fun letter capital => letter.toUpper = capital) word negationMarker := by
    rw [← List.forall₂_eq_eq_eq, List.forall₂_map_left_iff]
  rw [isNegation, beq_iff_eq, hletters]
  constructor
  · intro h
    refine (forall₂_imp_of_mem h.flip fun capital hcapital letter hletter => ?_).flip
    exact (toUpper_eq_iff (hcapitals capital hcapital)).mp hletter
  · intro h
    refine (forall₂_imp_of_mem h.flip fun capital hcapital letter hletter => ?_).flip
    exact (toUpper_eq_iff (hcapitals capital hcapital)).mpr hletter

theorem IsMarker.isWord {word : Text} (h : IsMarker word) : Text.IsWord word := by
  constructor
  · rintro rfl
    cases h
  · intro c hc
    have hcapitals : ∀ capital ∈ negationMarker, (!Text.isBlank capital) = true :=
      List.all_eq_true.mp (by decide)
    have hsmall : ∀ capital ∈ negationMarker, (!Text.isBlank capital.toLower) = true :=
      List.all_eq_true.mp (by decide)
    obtain ⟨capital, hcapital, hletter⟩ := exists_mem_of_forall₂ h.flip hc
    rcases hletter with rfl | rfl
    · exact (Bool.not_eq_true' _).mp (hcapitals _ hcapital)
    · exact (Bool.not_eq_true' _).mp (hsmall _ hcapital)

/-! ## Spellings -/

/-- A text spells a literal over the labels of a vocabulary: with its label, or with the negation
marker and the label of the opposite literal. -/
inductive Spells (v : Vocabulary) : Text → Literal → Prop where
  | label {before label after : Text} {l : Literal} (hbefore : Text.Blank before)
      (hlabel : Text.IsWord label) (hafter : Text.Blank after)
      (hresolve : v.resolve label = .ok l) : Spells v (before ++ (label ++ after)) l
  | negation {before marker between label after : Text} {l : Literal} (hbefore : Text.Blank before)
      (hmarker : IsMarker marker) (hbetween : Text.Blank between) (hne : between ≠ [])
      (hlabel : Text.IsWord label) (hafter : Text.Blank after)
      (hresolve : v.resolve label = .ok l.negate) :
      Spells v (before ++ (marker ++ (between ++ (label ++ after)))) l

variable {v : Vocabulary} {t : Text} {l : Literal}

/-- What a text spells is decided by its words. -/
theorem spells_iff_words :
    Spells v t l ↔ (∃ label, Text.words t = [label] ∧ v.resolve label = .ok l) ∨
      ∃ marker label, Text.words t = [marker, label] ∧ IsMarker marker ∧
        v.resolve label = .ok l.negate := by
  constructor
  · intro h
    cases h with
    | label hbefore hlabel hafter hresolve =>
      exact .inl ⟨_, Text.words_eq_singleton_iff.mpr ⟨hlabel, _, _, rfl, hbefore, hafter⟩, hresolve⟩
    | negation hbefore hmarker hbetween hne hlabel hafter hresolve =>
      exact .inr ⟨_, _, Text.words_eq_pair_iff.mpr ⟨hmarker.isWord, hlabel, _, _, _, rfl, hbefore,
        hbetween, hne, hafter⟩, hmarker, hresolve⟩
  · rintro (⟨label, hwords, hresolve⟩ | ⟨marker, label, hwords, hmarker, hresolve⟩)
    · obtain ⟨hlabel, before, after, rfl, hbefore, hafter⟩ := Text.words_eq_singleton_iff.mp hwords
      exact .label hbefore hlabel hafter hresolve
    · obtain ⟨-, hlabel, before, between, after, rfl, hbefore, hbetween, hne, hafter⟩ :=
        Text.words_eq_pair_iff.mp hwords
      exact .negation hbefore hmarker hbetween hne hlabel hafter hresolve

theorem parseLiteral_eq_ok_iff : parseLiteral v t = .ok l ↔ Spells v t l := by
  rw [spells_iff_words]
  constructor
  · intro h
    rcases parseLiteral_eq_ok h with
      ⟨label, hwords, hl⟩ | ⟨marker, label, m, hwords, hmarker, hm, rfl⟩
    · exact .inl ⟨label, hwords, hl⟩
    · exact .inr ⟨marker, label, hwords, isNegation_iff.mp hmarker,
        by rw [hm, Literal.negate_negate]⟩
  · rintro (⟨label, hwords, hl⟩ | ⟨marker, label, hwords, hmarker, hl⟩)
    · rw [parseLiteral, hwords]
      exact hl
    · rw [parseLiteral, hwords]
      simp only [isNegation_iff.mpr hmarker, if_true, hl, Except.map, Literal.negate_negate]

theorem Spells.congr {s : Text} (h : Spells v t l) (hwords : Text.words s = Text.words t) :
    Spells v s l := by
  rw [spells_iff_words] at h ⊢
  rwa [hwords]

theorem Spells.ne_nil (h : Spells v t l) : t ≠ [] := by
  rintro rfl
  rcases spells_iff_words.mp h with ⟨_, hwords, _⟩ | ⟨_, _, hwords, _⟩ <;> cases hwords

/-- A word of a spelling is a label or the negation marker. -/
theorem Spells.mem_words (h : Spells v t l) {word : Text} (hword : word ∈ Text.words t) :
    word ∈ v.labels ∨ IsMarker word := by
  have hlabel : ∀ {label m}, v.resolve label = .ok m → label ∈ v.labels := fun hm =>
    Vocabulary.mem_labels_iff.mpr ⟨_, Vocabulary.resolve_eq_ok_iff.mp hm⟩
  rcases spells_iff_words.mp h with ⟨label, hwords, hl⟩ | ⟨marker, label, hwords, hmarker, hl⟩
  · rw [hwords, List.mem_singleton] at hword
    exact .inl (hword ▸ hlabel hl)
  · rw [hwords, List.mem_cons, List.mem_singleton] at hword
    rcases hword with rfl | rfl
    · exact .inr hmarker
    · exact .inl (hlabel hl)

/-! ## Written formulas -/

/-- A text is written as some clauses: the spellings of the literals of each clause are joined by
the disjunction, and these by the conjunction. -/
def Written (v : Vocabulary) (t : Text) (clauses : List Clause) : Prop :=
  ∃ parts : List (List Text), t = conjunction.intercalate (parts.map disjunction.intercalate) ∧
    List.Forall₂ (List.Forall₂ (Spells v)) parts clauses

section

variable {clauses : List Clause} (hne : clauses ≠ []) (hclauses : ∀ c ∈ clauses, c ≠ [])

include hne hclauses

/-- A written formula starts with a spelling, which may be changed within the same words. -/
theorem Written.exists_first (h : Written v t clauses) :
    ∃ s rest, t = s ++ rest ∧ s ≠ [] ∧
      ∀ s', Text.words s' = Text.words s → Written v (s' ++ rest) clauses := by
  obtain ⟨parts, rfl, hparts⟩ := h
  obtain ⟨c, clauses, rfl⟩ := List.exists_cons_of_ne_nil hne
  obtain ⟨l, c, rfl⟩ := List.exists_cons_of_ne_nil (hclauses c List.mem_cons_self)
  obtain ⟨part, parts, hpart, hrest, rfl⟩ := List.forall₂_cons_right_iff.mp hparts
  obtain ⟨s, part, hs, hothers, rfl⟩ := List.forall₂_cons_right_iff.mp hpart
  have hjoined : ∀ s',
      conjunction.intercalate (((s' :: part) :: parts).map disjunction.intercalate) =
      s' ++ (part.flatMap (disjunction ++ ·) ++
        (parts.map disjunction.intercalate).flatMap (conjunction ++ ·)) := fun s' => by
    rw [List.map_cons, Text.intercalate_cons, Text.intercalate_cons, List.append_assoc]
  refine ⟨s, _, hjoined s, hs.ne_nil, fun s' hwords => ?_⟩
  exact ⟨(s' :: part) :: parts, (hjoined s').symm, .cons (.cons (hs.congr hwords) hothers) hrest⟩

/-- A written formula ends with a spelling, which may be changed within the same words. -/
theorem Written.exists_last (h : Written v t clauses) :
    ∃ rest s, t = rest ++ s ∧ s ≠ [] ∧
      ∀ s', Text.words s' = Text.words s → Written v (rest ++ s') clauses := by
  obtain ⟨parts, rfl, hparts⟩ := h
  obtain ⟨clauses, c, rfl⟩ := (List.eq_nil_or_concat' clauses).resolve_left hne
  obtain ⟨c, l, rfl⟩ := (List.eq_nil_or_concat' c).resolve_left (hclauses c (by simp))
  obtain ⟨parts, part, rfl, hrest, hpart⟩ := exists_of_forall₂_concat hparts
  obtain ⟨part, s, rfl, hothers, hs⟩ := exists_of_forall₂_concat hpart
  have hjoined : ∀ s',
      conjunction.intercalate ((parts ++ [part ++ [s']]).map disjunction.intercalate) =
      ((parts.map disjunction.intercalate).flatMap (· ++ conjunction) ++
        part.flatMap (· ++ disjunction)) ++ s' := fun s' => by
    rw [List.map_append, List.map_singleton, Text.intercalate_concat, Text.intercalate_concat,
      List.append_assoc]
  refine ⟨_, s, hjoined s, hs.ne_nil, fun s' hwords => ?_⟩
  refine ⟨parts ++ [part ++ [s']], (hjoined s').symm, List.rel_append hrest (.cons ?_ .nil)⟩
  exact List.rel_append hothers (.cons (hs.congr hwords) .nil)

theorem written_trim_iff : Written v (Text.trim t) clauses ↔ Written v t clauses := by
  refine Text.trim_iff (P := fun t => Written v t clauses)
    (fun b t hb => ⟨fun h => ?_, fun h => ?_⟩) (fun t b hb => ⟨fun h => ?_, fun h => ?_⟩) t
  · obtain ⟨s, rest, ht, hs, hchange⟩ := h.exists_first hne hclauses
    obtain ⟨c, s, rfl⟩ := List.exists_cons_of_ne_nil hs
    cases ht
    exact hchange s (Text.words_cons hb s).symm
  · obtain ⟨s, rest, rfl, -, hchange⟩ := h.exists_first hne hclauses
    exact hchange (b :: s) (Text.words_cons hb s)
  · obtain ⟨rest, s, ht, hs, hchange⟩ := h.exists_last hne hclauses
    obtain ⟨s, c, rfl⟩ := (List.eq_nil_or_concat' s).resolve_left hs
    rw [← List.append_assoc] at ht
    obtain ⟨rfl, hc⟩ := List.append_inj' ht rfl
    cases hc
    exact hchange s (Text.words_concat hb s).symm
  · obtain ⟨rest, s, rfl, -, hchange⟩ := h.exists_last hne hclauses
    rw [List.append_assoc]
    exact hchange (s ++ [b]) (Text.words_concat hb s)

end

/-! ## Reading -/

theorem conjunction_ne_nil : conjunction ≠ [] := List.cons_ne_nil _ _

theorem disjunction_ne_nil : disjunction ≠ [] := List.cons_ne_nil _ _

/-- The pieces of a text that can be read are the spellings that it is written with. -/
theorem written_of_split {clauses : List Clause}
    (h : List.Forall₂ (fun part c => parseClause v part = .ok c) (Text.split conjunction t)
      clauses) : Written v t clauses := by
  refine ⟨(Text.split conjunction t).map (Text.split disjunction), ?_, ?_⟩
  · rw [List.map_map]
    have hparts : ∀ part, (disjunction.intercalate ∘ Text.split disjunction) part = part :=
      fun part => Text.intercalate_split disjunction_ne_nil
    rw [funext hparts, List.map_id', Text.intercalate_split conjunction_ne_nil]
  · rw [List.forall₂_map_left_iff]
    refine h.imp fun part c hc => ?_
    exact (mapM_eq_ok_iff.mp hc).imp fun _ _ => parseLiteral_eq_ok_iff.mp

/-- Where no label looks like a separator, the pieces of a written formula are its spellings. -/
theorem split_of_written (hand : ['A', 'N', 'D'] ∉ v.labels) (hor : ['O', 'R'] ∉ v.labels)
    {clauses : List Clause} (hne : clauses ≠ []) (hclauses : ∀ c ∈ clauses, c ≠ [])
    (h : Written v t clauses) :
    List.Forall₂ (fun part c => parseClause v part = .ok c) (Text.split conjunction t) clauses := by
  obtain ⟨parts, rfl, hparts⟩ := h
  have hconjunction : Text.IsWord ['A', 'N', 'D'] := by decide
  have hdisjunction : Text.IsWord ['O', 'R'] := by decide
  -- the separators are no words of a spelling
  have hspelled : ∀ {part c}, List.Forall₂ (Spells v) part c → ∀ s ∈ part, ∀ word ∈ Text.words s,
      word ≠ ['A', 'N', 'D'] ∧ word ≠ ['O', 'R'] := by
    intro part c hpart s hs word hword
    obtain ⟨l, -, hl⟩ := exists_mem_of_forall₂ hpart.flip hs
    rcases hl.mem_words hword with hlabel | hmarker
    · exact ⟨fun heq => hand (heq ▸ hlabel), fun heq => hor (heq ▸ hlabel)⟩
    · rw [← isNegation_iff] at hmarker
      constructor <;> (rintro rfl; revert hmarker; decide)
  have hpieces : Text.split conjunction
      (conjunction.intercalate (parts.map disjunction.intercalate)) =
        parts.map disjunction.intercalate := by
    refine Text.split_intercalate hconjunction ?_ fun piece hpiece hmem => ?_
    · rintro hnil
      rw [List.map_eq_nil_iff.mp hnil, List.forall₂_nil_left_iff] at hparts
      exact hne hparts
    · obtain ⟨part, hpart, rfl⟩ := List.mem_map.mp hpiece
      obtain ⟨c, -, hc⟩ := exists_mem_of_forall₂ hparts.flip hpart
      rcases Text.mem_words_intercalate hdisjunction hmem with heq | ⟨s, hs, hword⟩
      · cases heq
      · exact (hspelled hc s hs _ hword).1 rfl
  rw [hpieces, List.forall₂_map_left_iff]
  refine (forall₂_imp_of_mem hparts.flip fun c hc part hpart => ?_).flip
  have hpart' : List.Forall₂ (Spells v) part c := hpart
  have hsplit : Text.split disjunction (disjunction.intercalate part) = part := by
    refine Text.split_intercalate hdisjunction ?_ fun s hs hmem => ?_
    · rintro rfl
      exact hclauses c hc (List.forall₂_nil_left_iff.mp hpart')
    · exact (hspelled hpart' s hs _ hmem).2 rfl
  show parseClause v (disjunction.intercalate part) = .ok c
  rw [parseClause, hsplit, mapM_eq_ok_iff]
  exact hpart'.imp fun _ _ => parseLiteral_eq_ok_iff.mpr

/-- A word of a clause that can be read is a label, the negation marker or the disjunction. -/
theorem mem_words_of_parseClause {c : Clause} (h : parseClause v t = .ok c) {word : Text}
    (hword : word ∈ Text.words t) : word ∈ v.labels ∨ IsMarker word ∨ word = ['O', 'R'] := by
  have hdisjunction : Text.IsWord ['O', 'R'] := by decide
  rw [← Text.intercalate_split (t := t) disjunction_ne_nil] at hword
  rcases Text.mem_words_intercalate hdisjunction hword with heq | ⟨s, hs, hspelled⟩
  · exact .inr (.inr heq)
  · obtain ⟨l, -, hl⟩ := exists_mem_of_forall₂ (mapM_eq_ok_iff.mp h).flip hs
    rcases (parseLiteral_eq_ok_iff.mp hl).mem_words hspelled with hlabel | hmarker
    · exact .inl hlabel
    · exact .inr (.inl hmarker)

/-- A word of a text that can be read is a label, the negation marker or one of the separators. -/
theorem mem_words_of_parse {f : Formula} (h : parse v t = .ok f) {word : Text}
    (hword : word ∈ Text.words t) :
    word ∈ v.labels ∨ IsMarker word ∨ word = ['A', 'N', 'D'] ∨ word = ['O', 'R'] := by
  obtain ⟨clauses, hsplit, -⟩ := parse_eq_ok_iff.mp h
  have hconjunction : Text.IsWord ['A', 'N', 'D'] := by decide
  rw [← Text.words_trim, ← Text.intercalate_split (t := Text.trim t) conjunction_ne_nil] at hword
  rcases Text.mem_words_intercalate hconjunction hword with heq | ⟨piece, hpiece, hmem⟩
  · exact .inr (.inr (.inl heq))
  · obtain ⟨c, -, hc⟩ := exists_mem_of_forall₂ hsplit.flip hpiece
    rcases mem_words_of_parseClause hc hmem with hlabel | hmarker | heq
    · exact .inl hlabel
    · exact .inr (.inl hmarker)
    · exact .inr (.inr (.inr heq))

/-- A clause that can be read has a word. -/
theorem words_ne_nil_of_parseClause {c : Clause} (h : parseClause v t = .ok c) :
    Text.words t ≠ [] := by
  obtain ⟨s, others, hs⟩ := List.exists_cons_of_ne_nil
    (Text.split_ne_nil (t := t) disjunction_ne_nil)
  have ht : s ++ others.flatMap (disjunction ++ ·) = t := by
    rw [← Text.intercalate_cons, ← hs, Text.intercalate_split disjunction_ne_nil]
  rw [parseClause, hs, mapM_eq_ok_iff] at h
  obtain ⟨l, rest, hl, -, -⟩ := List.forall₂_cons_left_iff.mp h
  intro hnil
  have hblank : Text.Blank s := fun d hd =>
    Text.words_eq_nil_iff.mp hnil d (ht ▸ List.mem_append_left _ hd)
  rcases spells_iff_words.mp (parseLiteral_eq_ok_iff.mp hl) with ⟨_, hwords, -⟩ | ⟨_, _, hwords, -⟩
  · rw [hblank.words_eq_nil] at hwords
    cases hwords
  · rw [hblank.words_eq_nil] at hwords
    cases hwords

/-! ## Blanks around a formula -/

theorem parse_trim (v : Vocabulary) (t : Text) : parse v (Text.trim t) = parse v t := by
  rw [parse, Text.trim_trim, ← parse]

theorem parse_trimStart (v : Vocabulary) (t : Text) : parse v (Text.trimStart t) = parse v t := by
  rw [← parse_trim, Text.trim_trimStart, parse_trim]

theorem parse_trimEnd (v : Vocabulary) (t : Text) : parse v (Text.trimEnd t) = parse v t := by
  rw [← parse_trim, Text.trim_trimEnd, parse_trim]

theorem not_blank_of_parse {f : Formula} (h : parse v t = .ok f) : ¬ Text.Blank t := by
  intro hblank
  rw [← parse_trim, Text.trim_eq_nil_iff.mpr hblank] at h
  cases h

theorem atoms_of_parse {f : Formula} (h : parse v t = .ok f) : f.atoms = v.size := by
  have hreach := reach_le_of_parse h
  obtain ⟨clauses, -, rfl⟩ := parse_eq_ok_iff.mp h
  exact Nat.max_eq_left hreach

/-- **The formula language.** Where no label looks like a separator, reading accepts exactly the
texts that are written as clauses. The formula has these clauses and their literals in the order in
which they are written, repeated ones included, and ranges over all attributes. -/
theorem parse_iff_written (hand : ['A', 'N', 'D'] ∉ v.labels) (hor : ['O', 'R'] ∉ v.labels)
    (t : Text) (clauses : List Clause) :
    (∃ f, parse v t = .ok f ∧ f.clauses = clauses ∧ f.atoms = v.size) ↔
      clauses ≠ [] ∧ (∀ c ∈ clauses, c ≠ []) ∧ Written v t clauses := by
  constructor
  · rintro ⟨f, hparse, rfl, -⟩
    obtain ⟨clauses, hsplit, rfl⟩ := parse_eq_ok_iff.mp hparse
    have hne : clauses ≠ [] := by
      rintro rfl
      exact Text.split_ne_nil conjunction_ne_nil (List.forall₂_nil_right_iff.mp hsplit)
    have hclauses : ∀ c ∈ clauses, c ≠ [] := by
      rintro c hc rfl
      obtain ⟨part, -, hpart⟩ := exists_mem_of_forall₂ hsplit hc
      exact Text.split_ne_nil disjunction_ne_nil
        (List.forall₂_nil_right_iff.mp (mapM_eq_ok_iff.mp hpart))
    exact ⟨hne, hclauses, (written_trim_iff hne hclauses).mp (written_of_split hsplit)⟩
  · rintro ⟨hne, hclauses, hwritten⟩
    have hsplit :=
      split_of_written hand hor hne hclauses ((written_trim_iff hne hclauses).mpr hwritten)
    have hparse : parse v t = .ok (ofClauses v.size clauses) :=
      parse_eq_ok_iff.mpr ⟨clauses, hsplit, rfl⟩
    exact ⟨_, hparse, rfl, atoms_of_parse hparse⟩

/-- Blanks may stand where they like and the negation marker may be small, but every literal has to
be written: between two conjunctions there is none. -/
theorem parse_iff_written_gifts :
    ['A', 'N', 'D'] ∉ gifts.labels ∧ ['O', 'R'] ∉ gifts.labels ∧
      Written gifts "  big OR \t nOt  red \n AND blue".toList
        [[⟨0, true⟩, ⟨1, false⟩], [⟨1, false⟩]] ∧
      ∀ clauses, clauses ≠ [] → (∀ c ∈ clauses, c ≠ []) →
        ¬ Written gifts "big AND  AND blue".toList clauses := by
  have hand : ['A', 'N', 'D'] ∉ gifts.labels := by decide
  have hor : ['O', 'R'] ∉ gifts.labels := by decide
  refine ⟨hand, hor, ?_, ?_⟩
  · obtain ⟨f, hparse, hf⟩ : ∃ f, parse gifts "  big OR \t nOt  red \n AND blue".toList = .ok f ∧
        (f.clauses, f.atoms) = ([[⟨0, true⟩, ⟨1, false⟩], [⟨1, false⟩]], gifts.size) :=
      map_eq_ok_iff.mp (by decide)
    obtain ⟨hclauses, hatoms⟩ := Prod.mk.inj hf
    exact ((parse_iff_written hand hor _ _).mp ⟨f, hparse, hclauses, hatoms⟩).2.2
  · intro clauses hne hclauses hwritten
    obtain ⟨f, hparse, -⟩ := (parse_iff_written hand hor _ clauses).mpr ⟨hne, hclauses, hwritten⟩
    have herror : parse gifts "big AND  AND blue".toList = .error (.malformed [] 0) := by decide
    rw [herror] at hparse
    cases hparse

end Formula

end PreferenceLogic
