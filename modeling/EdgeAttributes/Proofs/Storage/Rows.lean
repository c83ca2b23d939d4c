import EdgeAttributes.EdgeStorage
import Mathlib

namespace EdgeAttributes.EdgeStorage

variable {width : Nat}

/-- All words of an edge have positions of 64 bits, and so has the end of the edge. -/
def Addressable (width edge : Nat) : Prop := (edge + 1) * width < UInt64.size

instance (width edge : Nat) : Decidable (Addressable width edge) :=
  inferInstanceAs (Decidable ((edge + 1) * width < UInt64.size))

/-- The position of a word among the words of all edges. -/
def position (width edge index : Nat) : Nat := wrapped (edge * width + index)

/-- The words of some edges that are all zero. -/
def rowOf (width edges : Nat) : List UInt32 := List.replicate (wrapped (width * edges)) 0

/-- A row of words that is cut off or filled up with zeros to a length. -/
def resized (length : Nat) (row : List UInt32) : List UInt32 :=
  row.take length ++ List.replicate (length - row.length) 0

/-- A row that is to have a word at a position. One that is too short is resized to the end of the
    edge that the position belongs to. -/
def rowReaching (width position : Nat) (row : List UInt32) : List UInt32 :=
  if position < row.length then row else resized (wrapped ((position / width + 1) * width)) row

/-- A row where every edge has `width` words, with one word of an edge replaced; none if the row
    that is to have the word ends before it. -/
def rowSet (width edge index : Nat) (word : UInt32) (row : List UInt32) : Option (List UInt32) :=
  let reaching := rowReaching width (position width edge index) row
  if position width edge index < reaching.length then
    some (reaching.set (position width edge index) word)
  else none

theorem wrapped_of_lt {n : Nat} (h : n < UInt64.size) : wrapped n = n := Nat.mod_eq_of_lt h

theorem position_of_addressable {edge index : Nat} (hedge : Addressable width edge)
    (hindex : index < width) : position width edge index = edge * width + index := by
  rw [Addressable, Nat.succ_mul] at hedge
  exact wrapped_of_lt (by omega)

/-- The row of all words is that of the cells of the allocated edges, built or not. -/
theorem words_eq_flatMap (s : EdgeStorage width) :
    s.words = (List.range s.edgeCount).flatMap fun edge => (s.cell edge).toList := by
  have hcells : (List.range s.edgeCount).map s.cell =
      s.cells.toList ++ List.replicate (s.edgeCount - s.cells.size) (blank width) := by
    apply List.ext_getElem?
    intro edge
    have hsize := s.size_le
    rw [List.getElem?_map, List.getElem?_append, Array.length_toList]
    by_cases hbuilt : edge < s.cells.size
    · rw [if_pos hbuilt, List.getElem?_range (by omega), Option.map_some, cell_eq_getD]
      simp [hbuilt]
    · rw [if_neg hbuilt, List.getElem?_replicate]
      by_cases hcounted : edge < s.edgeCount
      · rw [if_pos (by omega), List.getElem?_range hcounted, Option.map_some, cell_eq_getD,
          Array.getElem?_eq_none (by omega)]
        rfl
      · rw [if_neg (by omega), List.getElem?_eq_none (by simpa using hcounted)]
        rfl
  have hblank : ∀ n, (List.replicate n (blank width)).flatMap Vector.toList =
      List.replicate (width * n) 0 := by
    intro n
    induction n with
    | zero => simp
    | succ n ih =>
      rw [List.replicate_succ, List.flatMap_cons, ih, blank, Vector.toList_replicate,
        List.replicate_append_replicate]
      congr 1
      ring
  calc s.words
      = (s.cells.toList ++
          List.replicate (s.edgeCount - s.cells.size) (blank width)).flatMap Vector.toList := by
        rw [words, List.flatMap_append, hblank]
    _ = ((List.range s.edgeCount).map s.cell).flatMap Vector.toList := by rw [hcells]
    _ = (List.range s.edgeCount).flatMap fun edge => (s.cell edge).toList := List.flatMap_map ..

private theorem length_flatMap_range (cell : Nat → Cell width) (count : Nat) :
    ((List.range count).flatMap fun edge => (cell edge).toList).length = count * width := by
  simp [List.length_flatMap]

/-- Words of different edges have different positions, and none lies between them. -/
private theorem getElem?_flatMap_range (cell : Nat → Cell width) (count edge : Nat) {index : Nat}
    (hindex : index < width) :
    ((List.range count).flatMap fun edge => (cell edge).toList)[edge * width + index]? =
      if edge < count then some (cell edge)[index] else none := by
  induction count with
  | zero => simp
  | succ count ih =>
    rw [List.range_succ, List.flatMap_append, List.getElem?_append, length_flatMap_range]
    rcases lt_trichotomy edge count with hlt | rfl | hgt
    · have hinside : edge * width + index < count * width := by nlinarith
      rw [if_pos hinside, ih, if_pos hlt, if_pos (by omega)]
    · rw [if_neg (by omega), if_pos (Nat.lt_succ_self _)]
      simp [hindex]
    · have houtside : (count + 1) * width ≤ edge * width + index := by nlinarith
      rw [Nat.succ_mul] at houtside
      rw [if_neg (by omega), if_neg (by omega)]
      simp
      omega

/-- A word of an allocated edge stands in the row at its own position. -/
theorem getElem?_words (s : EdgeStorage width) (edge : Nat) {index : Nat} (hindex : index < width) :
    s.words[edge * width + index]? =
      if edge < s.edgeCount then some (s.cell edge)[index] else none := by
  rw [words_eq_flatMap, getElem?_flatMap_range s.cell s.edgeCount edge hindex]

/-- Words have one position only if they are the same word of the same edge. -/
private theorem position_inj {edge edge' index index' : Nat} (hindex : index < width)
    (hindex' : index' < width) (h : edge * width + index = edge' * width + index') :
    edge = edge' ∧ index = index' := by
  rcases lt_trichotomy edge edge' with hlt | rfl | hgt
  · have hbehind : (edge + 1) * width ≤ edge' * width := Nat.mul_le_mul_right _ hlt
    rw [Nat.succ_mul] at hbehind
    omega
  · exact ⟨rfl, Nat.add_left_cancel h⟩
  · have hbehind : (edge' + 1) * width ≤ edge * width := Nat.mul_le_mul_right _ hgt
    rw [Nat.succ_mul] at hbehind
    omega

/-- Storage with at least some number of edges counted as allocated. -/
private def counting (s : EdgeStorage width) (edges : Nat) : EdgeStorage width :=
  ⟨s.cells, max s.edgeCount edges, s.size_le.trans (le_max_left _ _)⟩

private theorem words_counting (s : EdgeStorage width) (edges : Nat) :
    (s.counting edges).words = s.words ++ List.replicate (width * (edges - s.edgeCount)) 0 := by
  have hsize := s.size_le
  have hcount : max s.edgeCount edges - s.cells.size =
      (s.edgeCount - s.cells.size) + (edges - s.edgeCount) := by omega
  change s.cells.toList.flatMap Vector.toList ++
    List.replicate (width * (max s.edgeCount edges - s.cells.size)) 0 = _
  rw [hcount, Nat.mul_add, ← List.replicate_append_replicate, ← List.append_assoc]
  rfl

/-- Extending the row is to count more edges as allocated. -/
private theorem rowReaching_words (s : EdgeStorage width) {edge : Nat}
    (haddressable : Addressable width edge) {index : Nat} (hindex : index < width) :
    rowReaching width (edge * width + index) s.words = (s.counting (edge + 1)).words := by
  have hdiv : (edge * width + index) / width = edge := by
    rw [Nat.add_comm, Nat.add_mul_div_right _ _ (Nat.zero_lt_of_lt hindex), Nat.div_eq_of_lt hindex,
      Nat.zero_add]
  rw [rowReaching, hdiv, length_words, words_counting, Nat.mul_comm width]
  by_cases hedge : edge < s.edgeCount
  · have hinside : (edge + 1) * width ≤ s.edgeCount * width := Nat.mul_le_mul_right _ hedge
    rw [Nat.succ_mul] at hinside
    rw [if_pos (by omega), Nat.sub_eq_zero_of_le hedge]
    simp
  · have houtside : s.edgeCount * width ≤ edge * width :=
      Nat.mul_le_mul_right _ (Nat.le_of_not_lt hedge)
    have hlength : s.words.length ≤ (edge + 1) * width := by
      rw [length_words, Nat.succ_mul, Nat.mul_comm width]
      omega
    rw [if_neg (by omega), wrapped_of_lt haddressable, resized, List.take_of_length_le hlength,
      length_words, Nat.mul_comm width, Nat.mul_comm width, Nat.sub_mul]

/-- Replacing a word of an edge replaces the word at its position in the row, which grows by whole
    edges if it has to. -/
theorem rowSet_words (s : EdgeStorage width) {edge : Nat} (haddressable : Addressable width edge)
    {index : Nat} (word : UInt32) (hindex : index < width) :
    rowSet width edge index word s.words = some (s.put edge index word hindex).words := by
  have hreached : edge * width + index < (s.counting (edge + 1)).words.length := by
    have hcount : edge + 1 ≤ (s.counting (edge + 1)).edgeCount := le_max_right _ _
    have hwords : (edge + 1) * width ≤ width * (s.counting (edge + 1)).edgeCount := by
      rw [Nat.mul_comm]
      exact Nat.mul_le_mul_left width hcount
    rw [Nat.succ_mul] at hwords
    rw [length_words]
    omega
  rw [rowSet, position_of_addressable haddressable hindex, s.rowReaching_words haddressable hindex]
  simp only [if_pos hreached, Option.some.injEq]
  symm
  apply List.ext_getElem?
  intro position
  obtain ⟨other, index', hindex', rfl⟩ :
      ∃ other index', index' < width ∧ position = other * width + index' :=
    ⟨position / width, position % width, Nat.mod_lt _ (Nat.zero_lt_of_lt hindex), by
      rw [Nat.mul_comm, Nat.div_add_mod]⟩
  have hcell : (s.counting (edge + 1)).cell = s.cell := rfl
  have hcount : (s.counting (edge + 1)).edgeCount = max s.edgeCount (edge + 1) := rfl
  rw [getElem?_words _ other hindex', edgeCount_put, cell_put, List.getElem?_set]
  by_cases hsame : edge * width + index = other * width + index'
  · obtain ⟨rfl, rfl⟩ := position_inj hindex hindex' hsame
    have hedge : edge < max s.edgeCount (edge + 1) := by omega
    have hinside := (List.getElem?_eq_some_iff.1
      ((getElem?_words (s.counting (edge + 1)) edge hindex).trans (if_pos hedge))).1
    rw [if_pos rfl, if_pos hedge, if_pos rfl, if_pos hinside]
    simp
  · rw [if_neg hsame, getElem?_words _ other hindex', hcount, hcell]
    by_cases hedge : edge = other
    · subst hedge
      have hne : index ≠ index' := fun h => hsame (by rw [h])
      rw [if_pos rfl, Vector.getElem_set_ne _ _ hne]
    · simp only [if_neg hedge]

end EdgeAttributes.EdgeStorage
