import EdgeAttributes.Error

namespace EdgeAttributes

/-- Why an operation on storage stops: a cause with a wording of its own, or an index past the words
    of an edge, which would land in the next edge. -/
inductive Fault where
  | error (e : Error)
  | wordPastWidth (index width : Nat)

/-- The wording of a fault. -/
def Fault.message : Fault → String
  | .error e => e.message
  | .wordPastWidth index width => s!"word index {index} exceeds {width} ints per edge"

/-- The words of one edge. -/
abbrev Cell (width : Nat) := Vector UInt32 width

/-- The cells up to the last one written, in the order of their edges, and the number of edges that
    are allocated. What was never written reads as zero, and cells behind the last one written are
    only counted. The position of a word among the words of all edges, `edge * width + index`, is
    taken to be less than `2 ^ 64`, as it is for edges of 32 bits and up to `2 ^ 32` words each. -/
structure EdgeStorage (width : Nat) where
  cells : Array (Cell width)
  edgeCount : Nat
  size_le : cells.size ≤ edgeCount

/-- A computation that changes storage. If it stops, what it wrote before stays written. -/
abbrev Edit (width : Nat) := EStateM Fault (EdgeStorage width)

/-- Two computations in a row succeed if the first does and the second does on what it left. -/
theorem Edit.bind_eq_ok_iff {width : Nat} {α β : Type} {x : Edit width α} {f : α → Edit width β}
    {b : β} {s s' : EdgeStorage width} :
    (x >>= f) s = .ok b s' ↔ ∃ a t, x s = .ok a t ∧ f a t = .ok b s' := by
  change EStateM.bind x f s = _ ↔ _
  rw [EStateM.bind]
  cases x s with
  | error fault t => simp
  | ok a t =>
    constructor
    · exact fun h => ⟨a, t, rfl, h⟩
    · rintro ⟨_, _, hx, h⟩
      cases hx
      exact h

namespace EdgeStorage

variable {width : Nat}

/-- The cell of an edge that was never written. -/
def blank (width : Nat) : Cell width := Vector.replicate width 0

/-- A number as 64 bits hold it: one that is too large wraps around. -/
def wrapped (n : Nat) : Nat := n % UInt64.size

/-- Storage with `edges` zeroed cells. Cells without words are never allocated. The words of all
    cells are counted in 64 bits, and there are as many edges as whole cells among them. -/
def zeroed (width edges : Nat) : EdgeStorage width :=
  ⟨#[], if width = 0 then 0 else wrapped (width * edges) / width, Nat.zero_le _⟩

/-- The words of an edge. -/
def cell (s : EdgeStorage width) (edge : Nat) : Cell width :=
  match s.cells[edge]? with
  | some found => found
  | none => blank width

/-- The words of all allocated edges in a row. -/
def words (s : EdgeStorage width) : List UInt32 :=
  s.cells.toList.flatMap Vector.toList ++
    List.replicate (width * (s.edgeCount - s.cells.size)) 0

/-- Cells up to and including that of `edge`. -/
def grown (cells : Array (Cell width)) (edge : Nat) : Array (Cell width) :=
  if edge < cells.size then cells
  else cells ++ Array.replicate (edge + 1 - cells.size) (blank width)

theorem size_grown (cells : Array (Cell width)) (edge : Nat) :
    (grown cells edge).size = max cells.size (edge + 1) := by
  rw [grown]
  split
  · omega
  · simp
    omega

/-- Storage with one word replaced. -/
def put (s : EdgeStorage width) (edge index : Nat) (word : UInt32) (hindex : index < width) :
    EdgeStorage width where
  cells := (grown s.cells edge).modify edge fun c => c.set index word hindex
  edgeCount := max s.edgeCount (edge + 1)
  size_le := by
    rw [Array.size_modify, size_grown]
    have := s.size_le
    omega

/-- Read a word of an edge. -/
def word (s : EdgeStorage width) (edge index : Nat) : Except Fault UInt32 :=
  if h : index < width then
    match s.cells[edge]? with
    | some found => .ok found[index]
    | none => .ok 0
  else .error (.wordPastWidth index width)

/-- Replace a word of an edge. -/
def setWord (edge index : Nat) (word : UInt32) : Edit width Unit := fun s =>
  if h : index < width then .ok () (s.put edge index word h)
  else .error (.wordPastWidth index width) s

/-- A word is read from the cell of its edge. -/
theorem word_eq (s : EdgeStorage width) (edge : Nat) {index : Nat} (hindex : index < width) :
    s.word edge index = .ok (s.cell edge)[index] := by
  rcases h : s.cells[edge]? with _ | found
  · simp [word, cell, hindex, h, blank]
  · simp [word, cell, hindex, h]

theorem edgeCount_put (s : EdgeStorage width) (edge index : Nat) (word : UInt32)
    (hindex : index < width) :
    (s.put edge index word hindex).edgeCount = max s.edgeCount (edge + 1) := rfl

theorem cell_eq_getD (s : EdgeStorage width) (edge : Nat) :
    s.cell edge = (s.cells[edge]?).getD (blank width) := by
  rw [cell]
  cases s.cells[edge]? <;> rfl

private theorem getD_grown (cells : Array (Cell width)) (edge other : Nat) :
    ((grown cells edge)[other]?).getD (blank width) = (cells[other]?).getD (blank width) := by
  rw [grown]
  split
  · rfl
  · by_cases h : other < cells.size
    · rw [Array.getElem?_append_left h]
    · have hother : cells.size ≤ other := by omega
      rw [Array.getElem?_append_right hother, Array.getElem?_eq_none hother]
      by_cases hin : other - cells.size < edge + 1 - cells.size
      · simp [hin]
      · simp [hin]

theorem getD_modify_grown (cells : Array (Cell width)) (edge : Nat) (f : Cell width → Cell width)
    (other : Nat) : (((grown cells edge).modify edge f)[other]?).getD (blank width) =
      if edge = other then f ((cells[edge]?).getD (blank width))
      else (cells[other]?).getD (blank width) := by
  rw [Array.getElem?_modify]
  by_cases h : edge = other
  · subst h
    rw [if_pos rfl, if_pos rfl, ← getD_grown cells edge edge]
    have hsize : edge < (grown cells edge).size := by rw [size_grown]; omega
    rw [Array.getElem?_eq_getElem hsize]
    simp
  · rw [if_neg h, if_neg h, getD_grown]

/-- A write changes the named word of the named edge and no other. -/
theorem cell_put (s : EdgeStorage width) (edge index : Nat) (word : UInt32)
    (hindex : index < width) (other : Nat) :
    (s.put edge index word hindex).cell other =
      if edge = other then (s.cell edge).set index word hindex else s.cell other := by
  simp only [cell_eq_getD, put, getD_modify_grown]

/-- Fresh storage reads as zeros, however many cells it starts with. -/
theorem cell_zeroed (width edges edge : Nat) : (zeroed width edges).cell edge = blank width := by
  simp [cell, zeroed]

private theorem length_flatMap_cells (cells : List (Cell width)) :
    (cells.flatMap Vector.toList).length = width * cells.length := by
  induction cells with
  | nil => simp
  | cons c cells ih =>
    simp only [List.flatMap_cons, List.length_append, List.length_cons, ih, Vector.length_toList]
    rw [Nat.mul_add, Nat.mul_one, Nat.add_comm]

/-- Every allocated edge contributes `width` words. -/
theorem length_words (s : EdgeStorage width) : s.words.length = width * s.edgeCount := by
  rw [words, List.length_append, length_flatMap_cells, List.length_replicate, Array.length_toList,
    ← Nat.mul_add, Nat.add_sub_cancel' s.size_le]

end EdgeStorage

end EdgeAttributes
