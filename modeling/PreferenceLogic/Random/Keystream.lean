/-!
# The ChaCha keystream

The ChaCha stream cipher with 20 rounds turns a key of eight words into a stream of words. A block
is computed from a state of 16 words: four constants, the key, the number of the block in two words,
and two words that are zero here.

Definitions:
* `Keystream.word`: the words of the stream.
* `Keystream.keyOfSeed`: a key made from a seed of 64 bits.
-/

namespace PreferenceLogic.Keystream

/-- A state of 16 words. -/
abbrev State := Vector UInt32 16

/-- Moves the bits of a word to the left, around the end. -/
def rotateLeft (x count : UInt32) : UInt32 := (x <<< count) ||| (x >>> (32 - count))

/-- Adds one word to another, and mixes the sum into a third one. -/
def mix (a b d : Fin 16) (count : UInt32) (s : State) : State :=
  let s := s.set a (s[a] + s[b])
  s.set d (rotateLeft (s[d] ^^^ s[a]) count)

/-- The quarter round on four words. -/
def quarterRound (a b c d : Fin 16) (s : State) : State :=
  mix c d b 7 (mix a b d 8 (mix c d b 12 (mix a b d 16 s)))

/-- A round on the columns and a round on the diagonals. -/
def doubleRound (s : State) : State :=
  let s := quarterRound 3 7 11 15 (quarterRound 2 6 10 14
    (quarterRound 1 5 9 13 (quarterRound 0 4 8 12 s)))
  quarterRound 3 4 9 14 (quarterRound 2 7 8 13
    (quarterRound 1 6 11 12 (quarterRound 0 5 10 15 s)))

/-- A key of eight words. -/
abbrev Key := Vector UInt32 8

/-- The first four words of a state: the ASCII text "expand 32-byte k". -/
def constants : Vector UInt32 4 := #v[0x61707865, 0x3320646e, 0x79622d32, 0x6b206574]

/-- The last four words of a state: the number of the block, lower half first, and two zeros. -/
def counter (block : Nat) : Vector UInt32 4 :=
  #v[UInt32.ofNat block, UInt32.ofNat (block / UInt32.size), 0, 0]

/-- The state that a block is computed from. -/
def initial (key : Key) (block : Nat) : State := constants ++ key ++ counter block

/-- A block of the stream: ten double rounds, added to the state they started from. -/
def block (key : Key) (number : Nat) : State :=
  let start := initial key number
  start.zipWith (· + ·) (Nat.repeat doubleRound 10 start)

/-- A word of the stream. -/
def word (key : Key) (position : Nat) : UInt32 :=
  (block key (position / 16)).get ⟨position % 16, Nat.mod_lt _ (by decide)⟩

/-! ## Keys from seeds -/

/-- The next state of the generator that keys are made with. -/
def nextState (s : UInt64) : UInt64 := s * 6364136223846793005 + 11634580027462260723

/-- The word that a state gives: some of its high bits, rotated by the highest ones. -/
def outputOf (s : UInt64) : UInt32 :=
  let x : UInt32 := (((s >>> 18) ^^^ s) >>> 27).toUInt32
  let right : UInt32 := (s >>> 59).toUInt32
  rotateLeft x (32 - right)

/-- The key made from a seed: the words of the first eight states after it. -/
def keyOfSeed (seed : UInt64) : Key :=
  Vector.ofFn fun i => outputOf (Nat.repeat nextState (i + 1) seed)

end PreferenceLogic.Keystream
