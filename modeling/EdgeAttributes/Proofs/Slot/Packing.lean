import EdgeAttributes.Slot.Cursor
import EdgeAttributes.Proofs.Slot.Bits

namespace EdgeAttributes

/-- Some slot of a list covers a bit of a word. -/
def Slot.Covered (slots : List Slot) (word bit : Nat) : Prop :=
  ∃ s ∈ slots, s.index = word ∧ s.shift ≤ bit ∧ bit < s.shift + s.bits

theorem Slot.covered_append_singleton {slots : List Slot} {s : Slot} {word bit : Nat} :
    Covered (slots ++ [s]) word bit ↔
      Covered slots word bit ∨ s.index = word ∧ s.shift ≤ bit ∧ bit < s.shift + s.bits := by
  simp only [Covered, List.mem_append, List.mem_singleton]
  constructor
  · rintro ⟨t, ht | rfl, hcover⟩
    · exact Or.inl ⟨t, ht, hcover⟩
    · exact Or.inr hcover
  · rintro (⟨t, ht, hcover⟩ | hcover)
    · exact ⟨t, Or.inl ht, hcover⟩
    · exact ⟨s, Or.inr rfl, hcover⟩

namespace Cursor

/-- A cursor either opens a new word, because the slot does not fit behind the last one, or puts the
    slot right behind the last one. -/
theorem take_cases (c : Cursor) (bits : Nat) :
    (wordBits < c.nextShift + bits ∧
      c.take bits = (⟨c.words, 0, bits⟩, ⟨c.words + 1, bits, c.bitsUsed + bits⟩)) ∨
    (c.nextShift + bits ≤ wordBits ∧
      c.take bits = (⟨c.words - 1, c.nextShift, bits⟩,
        ⟨c.words, c.nextShift + bits, c.bitsUsed + bits⟩)) := by
  by_cases h : wordBits < c.nextShift + bits
  · exact Or.inl ⟨h, by simp [take, h]⟩
  · exact Or.inr ⟨by omega, by simp [take, h]⟩

/-- The slots are those that a cursor handed out, in that order. Every open word is filled from bit
    0 without a gap, and the last one up to the cursor. -/
structure Filled (slots : List Slot) (c : Cursor) : Prop where
  inside : ∀ s ∈ slots, s.Inside
  ordered : slots.Pairwise fun a b => a.bitRange.2 ≤ b.bitRange.1
  index_lt : ∀ s ∈ slots, s.index < c.words
  last_index : slots ≠ [] → ∃ s ∈ slots, s.index + 1 = c.words
  nextShift_le : c.nextShift ≤ wordBits
  closed : c.words = 0 → c.nextShift = wordBits
  filled : ∀ word < c.words, ∃ used, 0 < used ∧ used ≤ wordBits ∧
    (word + 1 = c.words → used = c.nextShift) ∧ ∀ bit, Slot.Covered slots word bit ↔ bit < used
  bitsUsed_eq : c.bitsUsed = (slots.map Slot.bits).sum

theorem filled_start : Filled [] start where
  inside := by simp
  ordered := List.Pairwise.nil
  index_lt := by simp
  last_index := by simp
  nextShift_le := Nat.le_refl _
  closed _ := rfl
  filled := by simp [start]
  bitsUsed_eq := rfl

variable {slots : List Slot} {c : Cursor}

private theorem Filled.open_word (h : Filled slots c) {bits : Nat} (hpos : 0 < bits)
    (hbits : bits ≤ wordBits) :
    Filled (slots ++ [⟨c.words, 0, bits⟩]) ⟨c.words + 1, bits, c.bitsUsed + bits⟩ where
  inside := by
    intro s hs
    rcases List.mem_append.1 hs with hs | hs
    · exact h.inside s hs
    · rw [List.mem_singleton.1 hs]
      exact ⟨hpos, by simpa using hbits⟩
  ordered := by
    refine List.pairwise_append.2 ⟨h.ordered, List.pairwise_singleton _ _, ?_⟩
    intro a ha b hb
    rw [List.mem_singleton.1 hb]
    have hindex := h.index_lt a ha
    have hend := (h.inside a ha).end_le
    simp only [Slot.bitRange, wordBits] at hend ⊢
    omega
  index_lt := by
    intro s hs
    rcases List.mem_append.1 hs with hs | hs
    · exact Nat.lt_succ_of_lt (h.index_lt s hs)
    · rw [List.mem_singleton.1 hs]
      exact Nat.lt_succ_self _
  last_index _ := ⟨_, List.mem_append_right _ (List.mem_singleton_self _), rfl⟩
  nextShift_le := hbits
  closed := by simp
  filled := by
    intro word hword
    by_cases hlast : word = c.words
    · refine ⟨bits, hpos, hbits, fun _ => rfl, ?_⟩
      intro bit
      rw [Slot.covered_append_singleton]
      constructor
      · rintro (⟨s, hs, hindex, _⟩ | ⟨_, _, hbit⟩)
        · have := h.index_lt s hs
          omega
        · simpa using hbit
      · intro hbit
        exact Or.inr ⟨hlast.symm, Nat.zero_le _, by simpa using hbit⟩
    · have hword : word < c.words + 1 := hword
      obtain ⟨used, hused, hle, _, hcover⟩ := h.filled word (by omega)
      refine ⟨used, hused, hle, fun hnext : word + 1 = c.words + 1 => by omega, ?_⟩
      intro bit
      rw [Slot.covered_append_singleton, hcover bit]
      simp only
      omega
  bitsUsed_eq := by simp [h.bitsUsed_eq]

private theorem Filled.same_word (h : Filled slots c) {bits : Nat} (hpos : 0 < bits)
    (hroom : c.nextShift + bits ≤ wordBits) :
    Filled (slots ++ [⟨c.words - 1, c.nextShift, bits⟩])
      ⟨c.words, c.nextShift + bits, c.bitsUsed + bits⟩ := by
  -- A closed cursor reads as a full word, so there is an open one to put the slot into.
  have hopen : c.words ≠ 0 := by
    intro hzero
    have := h.closed hzero
    omega
  obtain ⟨used, hused, _, hend, hcover⟩ := h.filled (c.words - 1) (by omega)
  have hend : used = c.nextShift := hend (by omega)
  subst hend
  refine
    { inside := ?_
      ordered := ?_
      index_lt := ?_
      last_index := fun _ =>
        ⟨_, List.mem_append_right _ (List.mem_singleton_self _), Nat.succ_pred hopen⟩
      nextShift_le := hroom
      closed := fun hzero => absurd hzero hopen
      filled := ?_
      bitsUsed_eq := by simp [h.bitsUsed_eq] }
  · intro s hs
    rcases List.mem_append.1 hs with hs | hs
    · exact h.inside s hs
    · rw [List.mem_singleton.1 hs]
      exact ⟨hpos, hroom⟩
  · refine List.pairwise_append.2 ⟨h.ordered, List.pairwise_singleton _ _, ?_⟩
    intro a ha b hb
    rw [List.mem_singleton.1 hb]
    have hindex := h.index_lt a ha
    have hinside := h.inside a ha
    have hpos := hinside.bits_pos
    have hend := hinside.end_le
    have hbehind : a.index = c.words - 1 → a.shift + a.bits ≤ c.nextShift := by
      intro hlast
      have := (hcover (a.shift + a.bits - 1)).1 ⟨a, ha, hlast, by omega, by omega⟩
      omega
    simp only [Slot.bitRange, wordBits] at hend ⊢
    omega
  · intro s hs
    rcases List.mem_append.1 hs with hs | hs
    · exact h.index_lt s hs
    · rw [List.mem_singleton.1 hs]
      exact Nat.sub_lt (Nat.pos_of_ne_zero hopen) Nat.one_pos
  · intro word hword
    by_cases hlast : word = c.words - 1
    · refine ⟨c.nextShift + bits, by omega, hroom, fun _ => rfl, ?_⟩
      intro bit
      rw [Slot.covered_append_singleton, hlast, hcover bit]
      simp only [true_and]
      omega
    · have hword : word < c.words := hword
      obtain ⟨used, hused, hle, _, hcover⟩ := h.filled word hword
      refine ⟨used, hused, hle, fun hnext : word + 1 = c.words => by omega, ?_⟩
      intro bit
      rw [Slot.covered_append_singleton, hcover bit]
      simp only
      omega

/-- Handing out one more slot keeps the words filled, whichever word it lands in. -/
theorem Filled.take (h : Filled slots c) {bits : Nat} (hpos : 0 < bits) (hbits : bits ≤ wordBits) :
    Filled (slots ++ [(c.take bits).1]) (c.take bits).2 := by
  rcases take_cases c bits with ⟨_, htake⟩ | ⟨hroom, htake⟩
  · rw [htake]
    exact h.open_word hpos hbits
  · rw [htake]
    exact h.same_word hpos hroom

end Cursor

end EdgeAttributes
