import Mathlib.Data.List.Lex
import Mathlib.Tactic.IntervalCases
import PreferenceLogic.Config.Basic
import PreferenceLogic.Proofs.Formula.Meaning
import PreferenceLogic.Proofs.Object.Labels
import PreferenceLogic.Proofs.Text.Numeral

/-!
# The enumeration of the objects

The objects of a vocabulary of `n` attributes are numbered from zero to `2 ^ n - 1`. The `n` binary
digits of the number, leading zeros included, are the choices of the object, so every choice of
signs belongs to exactly one number, and a greater number has the greater signs in lexicographic
order. Within the limit on the attributes the count of the objects fits into a machine word.

Definitions:
* `digitsValue`: the number that binary digits denote.
* `Object.signs`: the signs that an object chooses.
* `Vocabulary.Numbered`: what the number of an object says about it.
* `Vocabulary.Enumerates`: a list holds every object once, in the order of the signs.

Results:
* `digitsValue_bitsOf`, `lt_iff_digitsValue_lt`: binary digits are inverse to what they denote, and
  the lexicographic order of the digits is the order of the numbers.
* `Vocabulary.bitstring_object`: the digits of an object are those of its number, padded with zeros.
* `Vocabulary.numbered_object`: every object is what its number says.
* `Vocabulary.literals_object_eq_iff`: the signs denote the number.
* `Vocabulary.objects_enumerate`: the objects within the limit on the attributes.
-/

namespace PreferenceLogic

/-! ## Binary digits -/

/-- The number that binary digits denote, the most significant digit first. -/
def digitsValue (bits : List Bool) : Nat := Nat.ofDigits 2 (bits.map Bool.toNat).reverse

variable {bits others : List Bool}

theorem digitsValue_cons (bit : Bool) :
    digitsValue (bit :: bits) = digitsValue bits + 2 ^ bits.length * bit.toNat := by
  rw [digitsValue, List.map_cons, Nat.ofDigits_reverse_cons, List.length_map]
  rfl

theorem digitsValue_lt : digitsValue bits < 2 ^ bits.length := by
  induction bits with
  | nil => simp [digitsValue]
  | cons bit bits ih =>
    have hbit : bit.toNat ≤ 1 := bit.toNat_le
    have hmul : 2 ^ bits.length * bit.toNat ≤ 2 ^ bits.length := by
      simpa using Nat.mul_le_mul_left (2 ^ bits.length) hbit
    rw [digitsValue_cons, List.length_cons, pow_succ]
    omega

/-- The first digit is the most significant one. -/
theorem bitsOf_succ (width n : Nat) :
    bitsOf (width + 1) n = n.testBit width :: bitsOf width n := by
  rw [bitsOf, List.range_succ_eq_map, List.map_cons, List.map_map]
  refine congrArg₂ List.cons rfl (List.map_congr_left fun position _ => ?_)
  show n.testBit (width + 1 - 1 - (position + 1)) = n.testBit (width - 1 - position)
  congr 1
  omega

theorem digitsValue_bitsOf_mod (width n : Nat) : digitsValue (bitsOf width n) = n % 2 ^ width := by
  induction width with
  | zero => simp [bitsOf, digitsValue, Nat.mod_one]
  | succ width ih =>
    rw [bitsOf_succ, digitsValue_cons, ih, length_bitsOf, Nat.toNat_testBit, Nat.mod_pow_succ]

theorem digitsValue_bitsOf {width n : Nat} (h : n < 2 ^ width) :
    digitsValue (bitsOf width n) = n := by
  rw [digitsValue_bitsOf_mod, Nat.mod_eq_of_lt h]

/-- As many digits are in lexicographic order when the numbers that they denote are: the first digit
that differs counts more than all the digits after it. -/
theorem lt_iff_digitsValue_lt (h : bits.length = others.length) :
    bits < others ↔ digitsValue bits < digitsValue others := by
  induction bits generalizing others with
  | nil =>
    obtain rfl : others = [] := List.eq_nil_of_length_eq_zero h.symm
    simp
  | cons bit bits ih =>
    cases others with
    | nil => cases h
    | cons other others =>
      have hlength : bits.length = others.length := Nat.succ.inj h
      have hbits : digitsValue bits < 2 ^ others.length := hlength ▸ digitsValue_lt
      have hothers : digitsValue others < 2 ^ others.length := digitsValue_lt
      rw [List.cons_lt_cons_iff, ih hlength, digitsValue_cons, digitsValue_cons, hlength]
      match bit, other with
      | false, false | true, true => simp
      | false, true =>
        refine iff_of_true (.inl rfl) ?_
        rw [Bool.toNat_false, Bool.toNat_true]
        omega
      | true, false =>
        refine iff_of_false (by simp [Bool.lt_iff]) ?_
        rw [Bool.toNat_false, Bool.toNat_true]
        omega

theorem eq_of_digitsValue_eq (h : bits.length = others.length)
    (hvalue : digitsValue bits = digitsValue others) : bits = others := by
  rcases lt_trichotomy bits others with hlt | heq | hlt
  · exact absurd hvalue ((lt_iff_digitsValue_lt h).mp hlt).ne
  · exact heq
  · exact absurd hvalue.symm ((lt_iff_digitsValue_lt h.symm).mp hlt).ne

theorem bitsOf_digitsValue : bitsOf bits.length (digitsValue bits) = bits :=
  eq_of_digitsValue_eq (length_bitsOf _ _) (digitsValue_bitsOf digitsValue_lt)

/-- The last digit is the least significant one. -/
theorem bitsOf_succ_last (width n : Nat) :
    bitsOf (width + 1) n = bitsOf width (n / 2) ++ [n.testBit 0] := by
  rw [bitsOf, List.range_succ, List.map_append, List.map_singleton]
  refine congrArg₂ (· ++ ·) (List.map_congr_left fun position hposition => ?_) ?_
  · rw [List.mem_range] at hposition
    rw [Nat.testBit_div_two]
    congr 1
    omega
  · rw [Nat.add_sub_cancel, Nat.sub_self]

/-! ## The text of the digits -/

/-- A numeral padded with zeros ends with the digit of least weight. -/
theorem leftpad_toDigits_succ {width : Nat} (hwidth : 0 < width) (n : Nat) :
    List.leftpad (width + 1) '0' (Nat.toDigits 2 n) =
      List.leftpad width '0' (Nat.toDigits 2 (n / 2)) ++ [Nat.digitChar (n % 2)] := by
  rw [Nat.toDigits_eq_if (n := n) (by decide)]
  split
  · rename_i hn
    obtain ⟨w, rfl⟩ : ∃ w, width = w + 1 := Nat.exists_eq_add_one.mpr hwidth
    rw [Nat.div_eq_of_lt hn, Nat.mod_eq_of_lt hn]
    show List.replicate (w + 1) '0' ++ [Nat.digitChar n] =
      List.replicate w '0' ++ ['0'] ++ [Nat.digitChar n]
    rw [List.replicate_succ']
  · simp [List.leftpad]

theorem digitChars_bitsOf {width n : Nat} (hwidth : 0 < width) (h : n < 2 ^ width) :
    ((bitsOf width n).map Bool.toNat).map Nat.digitChar =
      List.leftpad width '0' (Nat.toDigits 2 n) := by
  induction width, hwidth using Nat.le_induction generalizing n with
  | base =>
    have hn : n < 2 := h
    interval_cases n <;> rfl
  | succ width hwidth ih =>
    have hhalf : n / 2 < 2 ^ width := by
      rw [pow_succ] at h
      omega
    have hlast : (n.testBit 0).toNat = n % 2 := by rw [Nat.toNat_testBit, pow_zero, Nat.div_one]
    rw [leftpad_toDigits_succ hwidth, ← ih hhalf, bitsOf_succ_last, List.map_append,
      List.map_append, List.map_singleton, List.map_singleton, hlast]

namespace Object

theorem bitstring_eq_digits (o : Object) :
    o.bitstring = (o.bits.map Bool.toNat).map Nat.digitChar := by
  rw [bitstring, List.map_map]
  refine List.map_congr_left fun bit _ => ?_
  cases bit <;> rfl

theorem ofDigitChars_bitstring (o : Object) :
    Nat.ofDigitChars 2 o.bitstring 0 = digitsValue o.bits := by
  have hdigits : ∀ d ∈ o.bits.map Bool.toNat, d < 10 := by
    intro d hd
    obtain ⟨bit, -, rfl⟩ := List.mem_map.mp hd
    exact Nat.lt_of_le_of_lt bit.toNat_le (by decide)
  rw [bitstring_eq_digits, Text.ofDigitChars_digits hdigits, Nat.mul_zero, Nat.zero_add]
  rfl

/-- An attribute has its first label when its digit is one. -/
theorem valuation_eq_decide (o : Object) (i : Nat) :
    o.valuation i = decide (o.bitstring[i]? = some '1') := by
  rw [valuation, bitstring, List.getElem?_map, List.getD_eq_getElem?_getD]
  cases o.bits[i]? with
  | none => rfl
  | some bit => cases bit <;> rfl

/-- The signs that an object chooses, attribute by attribute. -/
def signs (o : Object) : List Bool := o.literals.map Literal.positive

end Object

/-! ## Objects and numbers -/

namespace Vocabulary

variable {v : Vocabulary} {k : Nat} {x : Object}

/-- What the number of an object says about it. -/
structure Numbered (v : Vocabulary) (k : Nat) (x : Object) : Prop where
  id : x.id = k
  /-- There is a binary digit for each attribute. -/
  length_bitstring : x.bitstring.length = v.size
  binary : ∀ c ∈ x.bitstring, c = '0' ∨ c = '1'
  /-- The digits denote the number, the first attribute being the most significant one. -/
  value : Nat.ofDigitChars 2 x.bitstring 0 = k
  length_literals : x.literals.length = v.size
  /-- The literal at a position is about the attribute there, and positive when the digit is one. -/
  literal : ∀ i < v.size, x.literals[i]? = some ⟨i, decide (x.bitstring[i]? = some '1')⟩
  length_labels : x.labels.length = v.size
  /-- The label at a position is that of the literal there, and resolves to it. -/
  label : ∀ i < v.size, ∃ l label, x.literals[i]? = some l ∧ x.labels[i]? = some label ∧
    v.label? l = some label ∧ v.resolve label = .ok l

/-- A list holds the objects in the order of their numbers, one for every choice of signs. -/
structure Enumerates (v : Vocabulary) (objects : List Object) : Prop where
  length : objects.length = 2 ^ v.size
  numbered : ∀ (k : Nat) (x : Object), objects[k]? = some x → v.Numbered k x
  /-- Literals of all attributes in their order belong to exactly one number. -/
  bijective : ∀ ls : List Literal, ls.map Literal.atom = List.range v.size →
    ∃! k : Nat, ∃ x, objects[k]? = some x ∧ x.literals = ls
  /-- The numbers are in the lexicographic order of the signs, a negative one before a positive. -/
  increasing : ∀ (j k : Nat) (x y : Object), objects[j]? = some x → objects[k]? = some y →
    (j < k ↔ x.signs < y.signs)

/-- The digits of an object are the binary numeral of its number, padded with zeros. -/
theorem bitstring_object (hsize : 0 < v.size) (h : k < 2 ^ v.size) :
    (v.object k).bitstring = List.leftpad v.size '0' (Nat.toDigits 2 k) := by
  rw [Object.bitstring_eq_digits]
  exact digitChars_bitsOf hsize h

theorem map_atom_literals (k : Nat) :
    (v.object k).literals.map Literal.atom = List.range v.size := by
  rw [literals_object, Valuation.map_atom_literals]

theorem signs_object (k : Nat) : (v.object k).signs = bitsOf v.size k := by
  rw [Object.signs, literals_object, Valuation.literals, List.map_map]
  exact List.map_congr_left fun atom hatom => valuation_object (List.mem_range.mp hatom)

theorem getElem?_literals {i : Nat} (hi : i < v.size) (k : Nat) :
    (v.object k).literals[i]? = some ⟨i, (v.object k).valuation i⟩ := by
  rw [literals_object, Valuation.literals, List.getElem?_map, List.getElem?_range hi]
  rfl

theorem numbered_object (h : k < 2 ^ v.size) : v.Numbered k (v.object k) where
  id := rfl
  length_bitstring := (List.length_map _).trans (length_bits k)
  binary c hc := by
    obtain ⟨bit, -, rfl⟩ := List.mem_map.mp hc
    cases bit with
    | false => exact .inl rfl
    | true => exact .inr rfl
  value := by
    rw [Object.ofDigitChars_bitstring]
    exact digitsValue_bitsOf h
  length_literals := by simpa using congrArg List.length (map_atom_literals (v := v) k)
  literal i hi := by rw [getElem?_literals hi, Object.valuation_eq_decide]
  length_labels := by
    show (List.zipWith Attribute.label v.attributes (bitsOf v.size k)).length = v.size
    rw [List.length_zipWith, length_bitsOf]
    exact Nat.min_self v.size
  label i hi := by
    have ha : v.attribute? i = some v.attributes[i] := List.getElem?_eq_getElem hi
    have hlabel : v.label? ⟨i, (v.object k).valuation i⟩ =
        some (v.attributes[i].label ((v.object k).valuation i)) := by
      rw [label?, ha, Option.map_some]
    refine ⟨_, _, getElem?_literals hi k, ?_, hlabel, resolve_eq_ok_iff.mpr hlabel⟩
    rw [getElem?_labels, ha, Option.map_some]

theorem length_positive_of_atoms {ls : List Literal}
    (h : ls.map Literal.atom = List.range v.size) : (ls.map Literal.positive).length = v.size := by
  simpa using congrArg List.length h

/-- The literals of all attributes with given signs are those of one object: the one whose number
the signs denote. -/
theorem literals_object_eq_iff {ls : List Literal}
    (hatoms : ls.map Literal.atom = List.range v.size) (h : k < 2 ^ v.size) :
    (v.object k).literals = ls ↔ k = digitsValue (ls.map Literal.positive) := by
  have hlength := length_positive_of_atoms hatoms
  constructor
  · rintro rfl
    rw [← Object.signs, signs_object, digitsValue_bitsOf h]
  · intro hk
    have hbits : bitsOf v.size k = ls.map Literal.positive := by
      rw [hk, ← hlength, bitsOf_digitsValue]
    show List.zipWith Literal.mk (List.range v.size) (bitsOf v.size k) = ls
    rw [← hatoms, hbits, List.zipWith_map, List.zipWith_self]
    exact List.map_id _

theorem getElem?_objects_eq_some_iff :
    v.objects[k]? = some x ↔ k < 2 ^ v.size ∧ x = v.object k := by
  rw [getElem?_objects_iff, mem_objects_iff]
  constructor
  · rintro ⟨⟨hid, hx⟩, rfl⟩
    exact ⟨hid, hx⟩
  · rintro ⟨hk, rfl⟩
    exact ⟨⟨hk, rfl⟩, rfl⟩

theorem enumerates_objects (v : Vocabulary) : v.Enumerates v.objects where
  length := by
    rw [objects, List.length_map, List.length_range]
    rfl
  numbered k x hx := by
    obtain ⟨hk, rfl⟩ := getElem?_objects_eq_some_iff.mp hx
    exact numbered_object hk
  bijective ls hatoms := by
    have hlength := length_positive_of_atoms hatoms
    have hvalue : digitsValue (ls.map Literal.positive) < 2 ^ v.size := hlength ▸ digitsValue_lt
    refine ⟨digitsValue (ls.map Literal.positive),
      ⟨_, getElem?_objects_eq_some_iff.mpr ⟨hvalue, rfl⟩,
        (literals_object_eq_iff hatoms hvalue).mpr rfl⟩, ?_⟩
    rintro k ⟨x, hx, hliterals⟩
    obtain ⟨hk, rfl⟩ := getElem?_objects_eq_some_iff.mp hx
    exact (literals_object_eq_iff hatoms hk).mp hliterals
  increasing j k x y hx hy := by
    obtain ⟨hj, rfl⟩ := getElem?_objects_eq_some_iff.mp hx
    obtain ⟨hk, rfl⟩ := getElem?_objects_eq_some_iff.mp hy
    have hlength : (bitsOf v.size j).length = (bitsOf v.size k).length := by
      rw [length_bitsOf, length_bitsOf]
    rw [signs_object, signs_object, lt_iff_digitsValue_lt hlength, digitsValue_bitsOf hj,
      digitsValue_bitsOf hk]

/-! ## The limit on the attributes -/

theorem size_lt_of_le_attributeLimit {config : Config} (h : v.size ≤ config.attributeLimit) :
    v.size < 64 :=
  Nat.lt_succ_of_le (h.trans (Nat.min_le_right _ _))

/-- Within the limit on the attributes, whatever the configuration says, the count of the objects is
what a machine word of 64 bits holds after a one is shifted by the number of attributes. The objects
are numbered by their places, every choice of signs is that of exactly one of them, and they are in
the lexicographic order of the signs. -/
theorem objects_enumerate (v : Vocabulary) (config : Config) (h : v.size ≤ config.attributeLimit) :
    v.size < 64 ∧ ((1 : BitVec 64) <<< v.size).toNat = v.objects.length ∧
      v.Enumerates v.objects := by
  have hsize : v.size < 64 := size_lt_of_le_attributeLimit h
  have hfits : 2 ^ v.size < 2 ^ 64 := Nat.pow_lt_pow_right (by decide) hsize
  refine ⟨hsize, ?_, enumerates_objects v⟩
  have hone : (1 : BitVec 64).toNat = 1 := rfl
  rw [(enumerates_objects v).length, BitVec.toNat_shiftLeft, Nat.shiftLeft_eq, hone, Nat.one_mul,
    Nat.mod_eq_of_lt hfits]

/-- The gifts are enumerated even when the configuration allows as many attributes as it can say. -/
theorem objects_enumerate_gifts :
    Formula.gifts.size ≤ Config.attributeLimit { maxAttributes := 2 ^ 64 - 1 } ∧
      ((1 : BitVec 64) <<< Formula.gifts.size).toNat = Formula.gifts.objects.length ∧
      Formula.gifts.Enumerates Formula.gifts.objects ∧
      Formula.gifts.objects.map Object.signs =
        [[false, false], [false, true], [true, false], [true, true]] := by
  have hlimit : Formula.gifts.size ≤ Config.attributeLimit { maxAttributes := 2 ^ 64 - 1 } := by
    decide
  obtain ⟨-, hcount, henumerates⟩ := objects_enumerate Formula.gifts _ hlimit
  exact ⟨hlimit, hcount, henumerates, by decide⟩

end Vocabulary

end PreferenceLogic
