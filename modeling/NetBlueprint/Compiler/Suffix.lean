/-!
Contract: the random words that hygiene suffixes are made of.

A seed determines an endless stream of 32-bit words: the seed is expanded to a key by a linear
congruential generator with a permuted output, and the words are the key stream of ChaCha with
twelve rounds. `randomWord seed position` is a pure function, so a run is reproducible from its
seed and the number of words drawn.
-/

namespace NetBlueprint.Suffix

def rotateLeft (word : UInt32) (amount : UInt32) : UInt32 :=
  (word <<< amount) ||| (word >>> (32 - amount))

def nextState (state : UInt64) : UInt64 :=
  state * 6364136223846793005 + 11634580027462260723

def outputWord (state : UInt64) : UInt32 :=
  let mixed := (((state >>> 18) ^^^ state) >>> 27).toUInt32
  let rotation := (state >>> 59).toUInt32
  (mixed >>> rotation) ||| (mixed <<< ((32 - rotation) % 32))

def keyWord (seed : UInt64) (index : Nat) : UInt32 :=
  outputWord (Nat.repeat nextState (index + 1) seed)

structure Row where
  first : UInt32
  second : UInt32
  third : UInt32
  fourth : UInt32

def Row.word (row : Row) : Nat → UInt32
  | 0 => row.first
  | 1 => row.second
  | 2 => row.third
  | _ => row.fourth

structure Block where
  constants : Row
  lowKey : Row
  highKey : Row
  counter : Row

def Block.row (block : Block) : Nat → Row
  | 0 => block.constants
  | 1 => block.lowKey
  | 2 => block.highKey
  | _ => block.counter

def Block.word (block : Block) (place : Nat) : UInt32 :=
  (block.row (place / 4)).word (place % 4)

/-- The block that the rounds start from: constants, key, block number and zeros. -/
def initialBlock (seed : UInt64) (number : Nat) : Block where
  constants := ⟨0x61707865, 0x3320646e, 0x79622d32, 0x6b206574⟩
  lowKey := ⟨keyWord seed 0, keyWord seed 1, keyWord seed 2, keyWord seed 3⟩
  highKey := ⟨keyWord seed 4, keyWord seed 5, keyWord seed 6, keyWord seed 7⟩
  counter := ⟨UInt32.ofNat number, UInt32.ofNat (number / Nat.pow 2 32), 0, 0⟩

def quarterRound (a b c d : UInt32) : Row :=
  let a₁ := a + b
  let d₁ := rotateLeft (d ^^^ a₁) 16
  let c₁ := c + d₁
  let b₁ := rotateLeft (b ^^^ c₁) 12
  let a₂ := a₁ + b₁
  let d₂ := rotateLeft (d₁ ^^^ a₂) 8
  let c₂ := c₁ + d₂
  let b₂ := rotateLeft (b₁ ^^^ c₂) 7
  ⟨a₂, b₂, c₂, d₂⟩

def columnRound : Block → Block
  | ⟨⟨a₀, a₁, a₂, a₃⟩, ⟨b₀, b₁, b₂, b₃⟩, ⟨c₀, c₁, c₂, c₃⟩, ⟨d₀, d₁, d₂, d₃⟩⟩ =>
    let p := quarterRound a₀ b₀ c₀ d₀
    let q := quarterRound a₁ b₁ c₁ d₁
    let r := quarterRound a₂ b₂ c₂ d₂
    let s := quarterRound a₃ b₃ c₃ d₃
    ⟨⟨p.first, q.first, r.first, s.first⟩, ⟨p.second, q.second, r.second, s.second⟩,
      ⟨p.third, q.third, r.third, s.third⟩, ⟨p.fourth, q.fourth, r.fourth, s.fourth⟩⟩

def diagonalRound : Block → Block
  | ⟨⟨a₀, a₁, a₂, a₃⟩, ⟨b₀, b₁, b₂, b₃⟩, ⟨c₀, c₁, c₂, c₃⟩, ⟨d₀, d₁, d₂, d₃⟩⟩ =>
    let p := quarterRound a₀ b₁ c₂ d₃
    let q := quarterRound a₁ b₂ c₃ d₀
    let r := quarterRound a₂ b₃ c₀ d₁
    let s := quarterRound a₃ b₀ c₁ d₂
    ⟨⟨p.first, q.first, r.first, s.first⟩, ⟨s.second, p.second, q.second, r.second⟩,
      ⟨r.third, s.third, p.third, q.third⟩, ⟨q.fourth, r.fourth, s.fourth, p.fourth⟩⟩

/-- Mixes the columns and then the diagonals of a block, six times. -/
def mixed (block : Block) : Block :=
  Nat.repeat (fun block => diagonalRound (columnRound block)) 6 block

/-- The word at a position of the stream. -/
def randomWord (seed : UInt64) (position : Nat) : UInt32 :=
  let start := initialBlock seed (position / 16)
  (mixed start).word (position % 16) + start.word (position % 16)

def hexText (width value : Nat) : String :=
  let digits := Nat.toDigits 16 value
  String.ofList (List.replicate (width - digits.length) '0' ++ digits)

/-- After this many words that are in use already, all bits of a word are used. -/
def shortAttempts : Nat := 64

/-- The stream repeats itself after this many words: the number of a block has 64 bits. -/
def period : Nat := Nat.pow 2 64 * 16

/-- After this many attempts in vain all further ones are in vain too: the long suffixes repeat
themselves with the stream. -/
def attemptLimit : Nat := shortAttempts + period

def suffixText (label : String) (attempt : Nat) (word : UInt32) : String :=
  if attempt < shortAttempts then
    "__" ++ label ++ "_" ++ hexText 4 (word.toNat % 65536)
  else
    "__" ++ label ++ "_" ++ hexText 8 word.toNat

end NetBlueprint.Suffix
