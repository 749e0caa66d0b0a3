import PreferenceLogic.Random.Keystream

/-!
# Random choices

A generator is a stream of words and the number of words drawn from it. A number below a bound is
the high half of the product of a word and the bound; words whose product has a high low half are
passed over, so that all numbers are equally likely.

Definitions:
* `Generator.below`: a number below a bound.
* `Generator.pair`: two different numbers below a bound.
* `Sampler`: a way to draw two different numbers below a bound.

Results:
* `Generator.pair_ne`: the two numbers are different, whatever the stream is.
-/

namespace PreferenceLogic

/-- A stream of words and how many of them are used up. -/
structure Generator where
  stream : Nat → UInt32
  drawn : Nat := 0
  /-- The number of words after which a choice is given up. More than half of all words serve, so
  no stream of random words comes near it. -/
  patience : Nat := 65536

namespace Generator

/-- The generator that repeats some words again and again. -/
def cyclic (words : List UInt32) : Generator where
  stream position := words.getD (position % words.length) 0

/-- The generator of a seed. -/
def seeded (seed : UInt64) : Generator where
  stream := Keystream.word (Keystream.keyOfSeed seed)

/-- Draws a word. -/
def next (g : Generator) : UInt32 × Generator :=
  (g.stream g.drawn, { g with drawn := g.drawn + 1 })

/-- The largest low half that is not passed over: the bound, moved to the left as far as a word
allows, less one. -/
def zone (bound : Nat) : Nat := bound <<< (31 - bound.log2) - 1

theorem mul_div_lt {bound : Nat} (h : 0 < bound) (word : UInt32) :
    word.toNat * bound / UInt32.size < bound := by
  rw [Nat.div_lt_iff_lt_mul (by decide), Nat.mul_comm bound]
  exact Nat.mul_lt_mul_of_pos_right word.toNat_lt h

/-- A number below a bound, looking at no more words than given. If all of them are passed over,
the number is zero. -/
def belowWithin (bound : Nat) (h : 0 < bound) : Nat → Generator → Fin bound × Generator
  | 0, g => (⟨0, h⟩, g)
  | words + 1, g =>
    let product := g.next.1.toNat * bound
    if product % UInt32.size ≤ zone bound then
      (⟨product / UInt32.size, mul_div_lt h g.next.1⟩, g.next.2)
    else belowWithin bound h words g.next.2

/-- A number below a bound. -/
def below (bound : Nat) (h : 0 < bound) (g : Generator) : Fin bound × Generator :=
  belowWithin bound h g.patience g

/-- Two different numbers made from one below a bound less one and one below the bound. If both are
the same, the largest number takes the first place. -/
def distinct {bound : Nat} (h : 2 ≤ bound) (first : Fin (bound - 1)) (second : Fin bound) :
    Fin bound × Fin bound :=
  if second.val = first.val then (⟨bound - 1, by omega⟩, second)
  else (⟨first.val, by omega⟩, second)

theorem distinct_ne {bound : Nat} (h : 2 ≤ bound) (first : Fin (bound - 1)) (second : Fin bound) :
    (distinct h first second).1 ≠ (distinct h first second).2 := by
  unfold distinct
  split
  · intro heq
    have := congrArg Fin.val heq
    simp only at this
    omega
  · rename_i hne
    intro heq
    exact hne (congrArg Fin.val heq).symm

/-- Two different numbers below a bound. -/
def pair (bound : Nat) (h : 2 ≤ bound) (g : Generator) : (Fin bound × Fin bound) × Generator :=
  let first := g.below (bound - 1) (by omega)
  let second := first.2.below bound (by omega)
  (distinct h first.1 second.1, second.2)

theorem pair_ne (bound : Nat) (h : 2 ≤ bound) (g : Generator) :
    (g.pair bound h).1.1 ≠ (g.pair bound h).1.2 :=
  distinct_ne h _ _

end Generator

/-- A way to draw two different numbers below a bound. -/
structure Sampler where
  draw (bound : Nat) (h : 2 ≤ bound) (g : Generator) : (Fin bound × Fin bound) × Generator
  ne (bound : Nat) (h : 2 ≤ bound) (g : Generator) : (draw bound h g).1.1 ≠ (draw bound h g).1.2

/-- The way in which all samples are drawn. -/
def Sampler.standard : Sampler := ⟨Generator.pair, Generator.pair_ne⟩

end PreferenceLogic
