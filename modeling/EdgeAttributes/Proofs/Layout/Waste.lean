import EdgeAttributes.Proofs.Layout.Slots

namespace EdgeAttributes

/-- Bits that the slots of a list take of a word. -/
def Slot.load (slots : List Slot) (word : Nat) : Nat :=
  ((slots.filter fun s => s.index = word).map Slot.bits).sum

namespace Slot

variable {slots : List Slot}

theorem load_cons (s : Slot) (slots : List Slot) (word : Nat) :
    load (s :: slots) word = (if s.index = word then s.bits else 0) + load slots word := by
  by_cases h : s.index = word <;> simp [load, h]

theorem load_append_singleton (slots : List Slot) (s : Slot) (word : Nat) :
    load (slots ++ [s]) word = load slots word + if s.index = word then s.bits else 0 := by
  by_cases h : s.index = word <;> simp [load, h]

theorem load_eq_zero {word : Nat} (h : ∀ s ∈ slots, s.index ≠ word) : load slots word = 0 := by
  have hnone : slots.filter (fun s => s.index = word) = [] := by simpa using h
  rw [load, hnone]
  rfl

/-- What is taken of the words is what the slots take together. -/
theorem sum_load {words : Nat} (h : ∀ s ∈ slots, s.index < words) :
    ∑ word ∈ Finset.range words, load slots word = (slots.map Slot.bits).sum := by
  induction slots with
  | nil => simp [load]
  | cons s slots ih =>
    obtain ⟨hs, hslots⟩ := List.forall_mem_cons.1 h
    simp only [load_cons, Finset.sum_add_distrib, ih hslots, List.map_cons, List.sum_cons]
    rw [Finset.sum_ite_eq, if_pos (Finset.mem_range.2 hs)]

end Slot

namespace Cursor

/-- The slots are those that a cursor handed out. A word was opened only for a slot that the word
    before it had no room for, so that any two neighbours hold more than one word. -/
structure Crowded (slots : List Slot) (c : Cursor) : Prop where
  load_last : ∀ word, word + 1 = c.words → Slot.load slots word = c.nextShift
  load_le : ∀ word, Slot.load slots word ≤ wordBits
  opened : ∀ before s after, slots = before ++ s :: after → (∀ t ∈ before, t.index ≠ s.index) →
    ∀ word, s.index = word + 1 → wordBits < Slot.load before word + s.bits
  neighbours : ∀ word, word + 1 < c.words →
    wordBits < Slot.load slots word + Slot.load slots (word + 1)

theorem crowded_start : Crowded [] start where
  load_last := by simp [start]
  load_le := by simp [Slot.load]
  opened := by simp
  neighbours := by simp [start]

variable {slots : List Slot} {c : Cursor}

/-- Of a list with one more slot, either an earlier slot is looked at or the last one. -/
private theorem Crowded.opened_snoc (h : Crowded slots c) {last : Slot}
    (hlast : (∀ t ∈ slots, t.index ≠ last.index) →
      ∀ word, last.index = word + 1 → wordBits < Slot.load slots word + last.bits)
    (before : List Slot) (s : Slot) (after : List Slot)
    (heq : slots ++ [last] = before ++ s :: after) :
    (∀ t ∈ before, t.index ≠ s.index) →
      ∀ word, s.index = word + 1 → wordBits < Slot.load before word + s.bits := by
  rcases List.eq_nil_or_concat after with rfl | ⟨after, other, rfl⟩
  · obtain ⟨rfl, hsame⟩ := List.append_inj' heq rfl
    obtain rfl : last = s := by simpa using hsame
    exact hlast
  · have hsplit : slots ++ [last] = (before ++ s :: after) ++ [other] := by simpa using heq
    obtain ⟨hslots, -⟩ := List.append_inj' hsplit rfl
    exact h.opened before s after hslots

private theorem Crowded.open_word (hfilled : Filled slots c) (h : Crowded slots c) {bits : Nat}
    (hbits : bits ≤ wordBits) (hfull : wordBits < c.nextShift + bits) :
    Crowded (slots ++ [⟨c.words, 0, bits⟩]) ⟨c.words + 1, bits, c.bitsUsed + bits⟩ := by
  have hfresh : Slot.load slots c.words = 0 :=
    Slot.load_eq_zero fun s hs => Nat.ne_of_lt (hfilled.index_lt s hs)
  refine ⟨?_, ?_, h.opened_snoc ?_, ?_⟩
  · intro word hword
    obtain rfl : word = c.words := Nat.succ.inj hword
    rw [Slot.load_append_singleton, hfresh, if_pos rfl, Nat.zero_add]
  · intro word
    rw [Slot.load_append_singleton]
    split
    · next hword =>
      rw [← hword, hfresh, Nat.zero_add]
      exact hbits
    · exact h.load_le word
  · intro _ word hword
    rw [h.load_last word hword.symm]
    exact hfull
  · intro word hword
    rw [Slot.load_append_singleton, Slot.load_append_singleton]
    by_cases hlast : word + 1 = c.words
    · rw [hlast, hfresh, if_pos rfl, Nat.zero_add, h.load_last word hlast]
      exact hfull.trans_le (Nat.add_le_add_right (Nat.le_add_right _ _) bits)
    · have hword : word + 1 < c.words + 1 := hword
      have hbefore := h.neighbours word (by omega)
      omega

private theorem Crowded.same_word (hfilled : Filled slots c) (h : Crowded slots c) {bits : Nat}
    (hroom : c.nextShift + bits ≤ wordBits) (hpos : 0 < bits) :
    Crowded (slots ++ [⟨c.words - 1, c.nextShift, bits⟩])
      ⟨c.words, c.nextShift + bits, c.bitsUsed + bits⟩ := by
  have hopen : c.words ≠ 0 := by
    intro hzero
    have hclosed := hfilled.closed hzero
    omega
  have hlast : Slot.load slots (c.words - 1) = c.nextShift := h.load_last _ (by omega)
  refine ⟨?_, ?_, h.opened_snoc ?_, ?_⟩
  · intro word hword
    obtain rfl : word = c.words - 1 := Nat.eq_sub_of_add_eq hword
    rw [Slot.load_append_singleton, hlast, if_pos rfl]
  · intro word
    rw [Slot.load_append_singleton]
    split
    · next hword =>
      rw [← hword, hlast]
      exact hroom
    · exact h.load_le word
  · -- The word is open, so a slot lies in it already.
    intro hfirst
    obtain ⟨used, hused, -, -, hcover⟩ := hfilled.filled (c.words - 1) (by omega)
    obtain ⟨s, hs, hindex, -⟩ := (hcover 0).2 hused
    exact absurd hindex (hfirst s hs)
  · intro word hword
    have hbefore := h.neighbours word hword
    rw [Slot.load_append_singleton, Slot.load_append_singleton]
    omega

/-- Handing out one more slot leaves no two neighbours with a word to spare. -/
theorem Crowded.take (hfilled : Filled slots c) (h : Crowded slots c) {bits : Nat} (hpos : 0 < bits)
    (hbits : bits ≤ wordBits) : Crowded (slots ++ [(c.take bits).1]) (c.take bits).2 := by
  rcases take_cases c bits with ⟨hfull, htake⟩ | ⟨hroom, htake⟩
  · rw [htake]
    exact h.open_word hfilled hbits hfull
  · rw [htake]
    exact h.same_word hfilled hroom hpos

theorem crowded_placeAll_start (ds : List Declaration) :
    Crowded (Field.slotsOf (start.placeAll ds).1) (start.placeAll ds).2 :=
  (placeAll_invariant (P := fun slots c => Filled slots c ∧ Crowded slots c)
    (fun _ _ _ hpos hbits h => ⟨h.1.take hpos hbits, h.2.take h.1 hpos hbits⟩)
    ⟨filled_start, crowded_start⟩ ds).2

end Cursor

/-- Where any two neighbours reach a bound together, all numbers together reach it once for every
    two of them. -/
private theorem mul_half_le_sum {load : Nat → Nat} {bound : Nat} (words : Nat)
    (h : ∀ word, word + 1 < words → bound ≤ load word + load (word + 1)) :
    bound * (words / 2) ≤ ∑ word ∈ Finset.range words, load word := by
  induction words using Nat.twoStepInduction with
  | zero => simp
  | one => simp
  | more words ih =>
    have hfront := ih fun word hword => h word (by omega)
    have hpair := h words (by omega)
    have hhalf : (words + 2) / 2 = words / 2 + 1 := by omega
    rw [hhalf, Finset.sum_range_succ, Finset.sum_range_succ, Nat.mul_add_one]
    omega

/-- A word is opened only for a slot that does not fit into what the slots before it left of the
    word before. Two neighbours therefore hold at least 33 bits together, whatever the widths of the
    declarations are, and so do the words on average, one of them apart if their number is odd. -/
theorem placeAll_waste (ds : List Declaration) :
    (∀ before s after, Field.slotsOf (Cursor.start.placeAll ds).1 = before ++ s :: after →
      (∀ t ∈ before, t.index ≠ s.index) →
        ∀ word, s.index = word + 1 → wordBits < Slot.load before word + s.bits) ∧
    (∀ word, word + 1 < (Cursor.start.placeAll ds).2.words →
      33 ≤ Slot.load (Field.slotsOf (Cursor.start.placeAll ds).1) word +
        Slot.load (Field.slotsOf (Cursor.start.placeAll ds).1) (word + 1)) ∧
    33 * ((Cursor.start.placeAll ds).2.words / 2) ≤ (Cursor.start.placeAll ds).2.bitsUsed ∧
    (Cursor.start.placeAll ds).2.bitsUsed ≤ 32 * (Cursor.start.placeAll ds).2.words := by
  have hfilled := Cursor.filled_placeAll_start ds
  have hcrowded := Cursor.crowded_placeAll_start ds
  have hsum := Slot.sum_load hfilled.index_lt
  rw [← hfilled.bitsUsed_eq] at hsum
  refine ⟨hcrowded.opened, hcrowded.neighbours, ?_, ?_⟩
  · rw [← hsum]
    exact mul_half_le_sum _ hcrowded.neighbours
  · rw [← hsum]
    calc ∑ word ∈ Finset.range (Cursor.start.placeAll ds).2.words,
          Slot.load (Field.slotsOf (Cursor.start.placeAll ds).1) word
        ≤ (Finset.range (Cursor.start.placeAll ds).2.words).card * wordBits :=
          Finset.sum_le_card_nsmul _ _ _ fun word _ => hcrowded.load_le word
      _ = 32 * (Cursor.start.placeAll ds).2.words := by rw [Finset.card_range, Nat.mul_comm]; rfl

end EdgeAttributes
