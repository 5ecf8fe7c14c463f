import ChipEight.Random.ChaCha

/-!
Sources of random words: an endless stream, and how much of it was drawn.
-/

namespace ChipEight

/-- A stream of words and the number of words drawn from it. -/
structure RandomSource where
  stream : Nat → UInt32
  drawn : Nat

namespace RandomSource

def ofWords (words : List UInt32) : RandomSource :=
  ⟨fun k => words.getD (k % words.length) 0, 0⟩

def ofSeed (seed : UInt64) : RandomSource :=
  let key := ChaCha.keyOfSeed seed
  ⟨ChaCha.word key, 0⟩

def word (r : RandomSource) : UInt32 :=
  r.stream r.drawn

def byte (r : RandomSource) : UInt8 :=
  r.word.toUInt8

def advance (r : RandomSource) : RandomSource :=
  { r with drawn := r.drawn + 1 }

end RandomSource

end ChipEight
