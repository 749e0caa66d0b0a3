import Mathlib.Data.Nat.Digits.Defs
import Mathlib.Tactic.Ring
import PreferenceLogic.Text.Decimal

/-!
# Numerals

A numeral denotes the number whose decimal digits it lists, the most significant one first. Leading
zeros and a plus sign do not change the number. Reading accepts exactly the numerals and finds the
number, however large it is.

Definitions:
* `Text.Denotes`: a text is a numeral of a number.

Results:
* `Text.exists_digits`: a text of digit characters lists digits.
* `Text.ofDigitChars_digits`: reading digits from left to right adds up their values.
* `Text.readDecimal?_eq_some_iff`: reading accepts exactly the numerals.
-/

namespace PreferenceLogic.Text

/-- A text is a numeral of a number: one or more decimal digits, the most significant one first,
with or without a plus sign before them. -/
def Denotes (t : Text) (n : Nat) : Prop :=
  ∃ digits : List Nat, digits ≠ [] ∧ (∀ d ∈ digits, d < 10) ∧
    (t = digits.map Nat.digitChar ∨ t = '+' :: digits.map Nat.digitChar) ∧
    n = Nat.ofDigits 10 digits.reverse

/-! ## Digits -/

theorem exists_digit {c : Char} (h : c.isDigit = true) : ∃ d < 10, c = Nat.digitChar d := by
  simp only [Char.isDigit, ge_iff_le, Bool.and_eq_true, decide_eq_true_eq, UInt32.le_iff_toNat_le]
    at h
  obtain ⟨hlow, hhigh⟩ : 48 ≤ c.toNat ∧ c.toNat ≤ 57 := h
  have hlt : c.toNat - 48 < 10 := by omega
  refine ⟨c.toNat - 48, hlt, Char.toNat_inj.mp ?_⟩
  rw [Nat.toNat_digitChar_of_lt_ten hlt]
  omega

theorem exists_digits {t : Text} (h : ∀ c ∈ t, c.isDigit = true) :
    ∃ digits : List Nat, (∀ d ∈ digits, d < 10) ∧ t = digits.map Nat.digitChar := by
  induction t with
  | nil => exact ⟨[], by simp, rfl⟩
  | cons c t ih =>
    obtain ⟨d, hd, rfl⟩ := exists_digit (h c List.mem_cons_self)
    obtain ⟨digits, hdigits, rfl⟩ := ih fun e he => h e (List.mem_cons_of_mem _ he)
    exact ⟨d :: digits, List.forall_mem_cons.mpr ⟨hd, hdigits⟩, rfl⟩

section

variable {digits : List Nat} (hdigits : ∀ d ∈ digits, d < 10)

include hdigits

theorem isDigit_of_mem_digits : ∀ c ∈ digits.map Nat.digitChar, c.isDigit = true := by
  intro c hc
  obtain ⟨d, hd, rfl⟩ := List.mem_map.mp hc
  rw [Nat.isDigit_digitChar]
  exact decide_eq_true (hdigits d hd)

/-- What was read before counts as many times as the base says with each further digit. -/
theorem ofDigitChars_digits (base start : Nat) :
    Nat.ofDigitChars base (digits.map Nat.digitChar) start =
      base ^ digits.length * start + Nat.ofDigits base digits.reverse := by
  induction digits generalizing start with
  | nil => simp [Nat.ofDigitChars]
  | cons d digits ih =>
    rw [List.forall_mem_cons] at hdigits
    have hvalue : (Nat.digitChar d).toNat - '0'.toNat = d := by
      rw [Nat.toNat_digitChar_of_lt_ten hdigits.1]
      exact Nat.add_sub_cancel_left 48 d
    rw [List.map_cons, Nat.ofDigitChars_cons, hvalue, ih hdigits.2, Nat.ofDigits_reverse_cons,
      List.length_cons, pow_succ]
    ring

theorem readDigits?_digits (hne : digits ≠ []) :
    readDigits? (digits.map Nat.digitChar) = some (Nat.ofDigits 10 digits.reverse) := by
  have hall : (digits.map Nat.digitChar).all Char.isDigit = true :=
    List.all_eq_true.mpr (isDigit_of_mem_digits hdigits)
  have hmap : digits.map Nat.digitChar ≠ [] := by simpa using hne
  rw [readDigits?, if_pos ⟨hmap, hall⟩, ofDigitChars_digits hdigits, Nat.mul_zero, Nat.zero_add]

end

/-! ## Numerals -/

theorem readDigits?_eq_some_iff {t : Text} {n : Nat} :
    readDigits? t = some n ↔ ∃ digits : List Nat, digits ≠ [] ∧ (∀ d ∈ digits, d < 10) ∧
      t = digits.map Nat.digitChar ∧ n = Nat.ofDigits 10 digits.reverse := by
  constructor
  · intro h
    have hread := h
    unfold readDigits? at h
    split at h
    · rename_i hall
      obtain ⟨digits, hdigits, rfl⟩ := exists_digits (List.all_eq_true.mp hall.2)
      have hne : digits ≠ [] := fun hnil => hall.1 (by rw [hnil, List.map_nil])
      rw [readDigits?_digits hdigits hne] at hread
      exact ⟨digits, hne, hdigits, rfl, (Option.some.inj hread).symm⟩
    · cases h
  · rintro ⟨digits, hne, hdigits, rfl, rfl⟩
    exact readDigits?_digits hdigits hne

/-- Reading accepts exactly the numerals. -/
theorem readDecimal?_eq_some_iff {t : Text} {n : Nat} :
    readDecimal? t = some n ↔ Denotes t n := by
  have hplus : ∀ {digits : List Nat}, (∀ d ∈ digits, d < 10) →
      ∀ s, '+' :: s ≠ digits.map Nat.digitChar := by
    intro digits hdigits s heq
    have hdigit := isDigit_of_mem_digits hdigits '+' (heq ▸ List.mem_cons_self)
    exact absurd hdigit (by decide)
  unfold readDecimal?
  split
  · rename_i s
    rw [readDigits?_eq_some_iff]
    constructor
    · rintro ⟨digits, hne, hdigits, rfl, hn⟩
      exact ⟨digits, hne, hdigits, .inr rfl, hn⟩
    · rintro ⟨digits, hne, hdigits, heq | heq, hn⟩
      · exact absurd heq (hplus hdigits s)
      · exact ⟨digits, hne, hdigits, (List.cons.inj heq).2, hn⟩
  · rename_i hsign
    rw [readDigits?_eq_some_iff]
    constructor
    · rintro ⟨digits, hne, hdigits, heq, hn⟩
      exact ⟨digits, hne, hdigits, .inl heq, hn⟩
    · rintro ⟨digits, hne, hdigits, heq | heq, hn⟩
      · exact ⟨digits, hne, hdigits, heq, hn⟩
      · exact absurd heq (hsign _)

end PreferenceLogic.Text
