namespace EdgeAttributes

/-- Bits in a storage word. -/
def wordBits : Nat := 32

/-- A run of `bits` bits that starts at bit `shift` of word `index`. A slot may describe a run that
    leaves its word; `Cursor.take` never hands out one that does. -/
structure Slot where
  index : Nat
  shift : Nat
  bits : Nat
deriving DecidableEq

namespace Slot

/-- The bits of the word that the slot covers; those past the end of the word are lost. -/
def mask (s : Slot) : UInt32 := UInt32.ofNat ((1 <<< s.bits) - 1) <<< UInt32.ofNat s.shift

/-- First and one past last bit of the slot, counted over all words of the edge. -/
def bitRange (s : Slot) : Nat × Nat :=
  let start := s.index * wordBits + s.shift
  (start, start + s.bits)

/-- The pattern that a word holds in the slot. -/
def extract (s : Slot) (word : UInt32) : UInt32 := (word &&& s.mask) >>> UInt32.ofNat s.shift

/-- The word with a pattern put into the slot; bits of the pattern that do not fit are dropped. -/
def deposit (s : Slot) (pattern word : UInt32) : UInt32 :=
  (word &&& ~~~s.mask) ||| ((pattern <<< UInt32.ofNat s.shift) &&& s.mask)

end Slot

end EdgeAttributes
