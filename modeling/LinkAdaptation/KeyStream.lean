/-! A reproducible source of random numbers: the ChaCha key stream of twenty
rounds under a key that is expanded from a 64-bit seed. -/

namespace LinkAdaptation

namespace ChaCha

abbrev Block := Vector UInt32 16

abbrev Key := Vector UInt32 8

def rotateLeft (x : UInt32) (n : UInt32) : UInt32 := x <<< n ||| x >>> (32 - n)

def quarterRound (s : Block) (a b c d : Fin 16) : Block :=
  let s := s.set a (s[a] + s[b])
  let s := s.set d (rotateLeft (s[d] ^^^ s[a]) 16)
  let s := s.set c (s[c] + s[d])
  let s := s.set b (rotateLeft (s[b] ^^^ s[c]) 12)
  let s := s.set a (s[a] + s[b])
  let s := s.set d (rotateLeft (s[d] ^^^ s[a]) 8)
  let s := s.set c (s[c] + s[d])
  s.set b (rotateLeft (s[b] ^^^ s[c]) 7)

/-- A round down the columns and a round along the diagonals. -/
def doubleRound (s : Block) : Block :=
  let s := quarterRound s 0 4 8 12
  let s := quarterRound s 1 5 9 13
  let s := quarterRound s 2 6 10 14
  let s := quarterRound s 3 7 11 15
  let s := quarterRound s 0 5 10 15
  let s := quarterRound s 1 6 11 12
  let s := quarterRound s 2 7 8 13
  quarterRound s 3 4 9 14

/-- Constants, key, a counter of 64 bits, and a nonce that is always zero. -/
def initial (key : Key) (counter : Nat) : Block :=
  (#v[0x61707865, 0x3320646e, 0x79622d32, 0x6b206574] : Vector UInt32 4) ++ key ++
    (#v[.ofNat counter, .ofNat (counter / UInt32.size), 0, 0] : Vector UInt32 4)

def block (key : Key) (counter : Nat) : Block :=
  let s := initial key counter
  Vector.zipWith (· + ·) (Nat.repeat doubleRound 10 s) s

end ChaCha

/-- The words of a key stream from a position on. The block that holds the next
word is kept at hand. -/
structure KeyStream where
  key : ChaCha.Key
  position : Nat
  block : ChaCha.Block
  block_eq : block = ChaCha.block key (position / 16)

namespace KeyStream

/-- The seed is stirred by a linear congruence, once for each word of the key. -/
def stirSeed (s : UInt64) : UInt64 := s * 6364136223846793005 + 11634580027462260723

/-- A word of the key: the high bits of a stirred seed, rotated by the highest. -/
def seedWord (s : UInt64) : UInt32 :=
  let x := (((s >>> 18) ^^^ s) >>> 27).toUInt32
  let n := (s >>> 59).toUInt32
  x >>> n ||| x <<< (32 - n)

def ofKey (key : ChaCha.Key) : KeyStream := ⟨key, 0, ChaCha.block key 0, rfl⟩

def ofSeed (seed : UInt64) : KeyStream :=
  ofKey (Vector.ofFn fun i => seedWord (Nat.repeat stirSeed (i + 1) seed))

def word (s : KeyStream) : UInt32 := s.block[s.position % 16]

def advance (s : KeyStream) : KeyStream :=
  if h : (s.position + 1) % 16 = 0 then
    ⟨s.key, s.position + 1, ChaCha.block s.key ((s.position + 1) / 16), rfl⟩
  else
    ⟨s.key, s.position + 1, s.block, by
      rw [s.block_eq, show (s.position + 1) / 16 = s.position / 16 by omega]⟩

theorem position_advance (s : KeyStream) : s.advance.position = s.position + 1 := by
  unfold advance
  split <;> rfl

/-- A number from the unit interval, without 1: the high 53 bits of the next
two words, the first word being the lower one. -/
def draw (s : KeyStream) : Float × KeyStream :=
  let low := s.word.toUInt64
  let t := s.advance
  let high := t.word.toUInt64
  (((high <<< 32 ||| low) >>> 11).toFloat / 9007199254740992.0, t.advance)

theorem position_draw (s : KeyStream) : s.draw.2.position = s.position + 2 := by
  simp [draw, position_advance]

end KeyStream

end LinkAdaptation
