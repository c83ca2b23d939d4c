import EdgeAttributes.Slot

namespace EdgeAttributes

/-- How far the words of an edge are filled. Before the first slot no word is open, which reads as a
    full one. The count of bits is taken to stay below `2 ^ 32`, as it does for up to `2 ^ 26`
    declarations. -/
structure Cursor where
  words : Nat
  nextShift : Nat
  bitsUsed : Nat
deriving DecidableEq

namespace Cursor

/-- Nothing handed out yet. -/
def start : Cursor := ⟨0, wordBits, 0⟩

/-- The next slot of `bits` bits, and the cursor behind it. -/
def take (c : Cursor) (bits : Nat) : Slot × Cursor :=
  let (words, shift) :=
    if c.nextShift + bits > wordBits then (c.words + 1, 0) else (c.words, c.nextShift)
  (⟨words - 1, shift, bits⟩, ⟨words, shift + bits, c.bitsUsed + bits⟩)

theorem bitsUsed_take (c : Cursor) (bits : Nat) :
    (c.take bits).2.bitsUsed = c.bitsUsed + bits := rfl

theorem bits_take (c : Cursor) (bits : Nat) : (c.take bits).1.bits = bits := rfl

end Cursor

end EdgeAttributes
