import ChipEight.Nibble

/-!
The ChaCha stream of 32-bit words with twelve rounds and a 64-bit block
counter, and the key that a 64-bit seed is spread to.
-/

namespace ChipEight.ChaCha

abbrev Block := Vector UInt32 16

abbrev Key := Vector UInt32 8

def rotateLeft (w : UInt32) (bits : UInt32) : UInt32 :=
  (w <<< bits) ||| (w >>> (32 - bits))

def quarterRound (s : Block) (a b c d : Nibble) : Block :=
  let wa := s[a] + s[b]
  let wd := rotateLeft (s[d] ^^^ wa) 16
  let wc := s[c] + wd
  let wb := rotateLeft (s[b] ^^^ wc) 12
  let wa := wa + wb
  let wd := rotateLeft (wd ^^^ wa) 8
  let wc := wc + wd
  let wb := rotateLeft (wb ^^^ wc) 7
  (((s.set a wa).set b wb).set c wc).set d wd

/-- The places that one double round mixes: the columns, then the diagonals. -/
def places : List (Nibble × Nibble × Nibble × Nibble) :=
  [(0, 4, 8, 12), (1, 5, 9, 13), (2, 6, 10, 14), (3, 7, 11, 15),
   (0, 5, 10, 15), (1, 6, 11, 12), (2, 7, 8, 13), (3, 4, 9, 14)]

def doubleRound (s : Block) : Block :=
  places.foldl (fun s p => quarterRound s p.1 p.2.1 p.2.2.1 p.2.2.2) s

def doubleRounds : Nat → Block → Block
  | 0, s => s
  | n + 1, s => doubleRounds n (doubleRound s)

/-- The constants, the key, the number of the block and a zero nonce. -/
def start (key : Key) (counter : UInt64) : Block :=
  #v[0x61707865, 0x3320646e, 0x79622d32, 0x6b206574,
     key[0], key[1], key[2], key[3], key[4], key[5], key[6], key[7],
     counter.toUInt32, (counter >>> 32).toUInt32, 0, 0]

def block (key : Key) (counter : UInt64) : Block :=
  (start key counter).zipWith (· + ·) (doubleRounds 6 (start key counter))

def word (key : Key) (k : Nat) : UInt32 :=
  (block key (UInt64.ofNat (k / 16)))[Nibble.ofNat k]

def spreadNext (s : UInt64) : UInt64 :=
  s * 6364136223846793005 + 11634580027462260723

def spreadWord (s : UInt64) : UInt32 :=
  let x := (((s >>> 18) ^^^ s) >>> 27).toUInt32
  let turn := (s >>> 59).toUInt32
  -- the mask keeps a turn by zero in range
  (x >>> turn) ||| (x <<< ((32 - turn) &&& 31))

def spread (seed : UInt64) : Nat → UInt64
  | 0 => seed
  | n + 1 => spread (spreadNext seed) n

def keyOfSeed (seed : UInt64) : Key :=
  Vector.ofFn fun i => spreadWord (spread seed (i + 1))

end ChipEight.ChaCha
