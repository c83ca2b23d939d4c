import EdgeAttributes.Proofs.Calls
import EdgeAttributes.Proofs.Storage.Rows

namespace EdgeAttributes

/-- A call that replaces a word of an edge. -/
structure WordWrite where
  edge : Nat
  index : Nat
  word : UInt32

namespace WordWrite

/-- Replace the word, or stop. -/
def perform {width : Nat} (w : WordWrite) : Edit width Unit :=
  EdgeStorage.setWord w.edge w.index w.word

/-- The word that the last of some writes put at a place. -/
def latest (ws : List WordWrite) (edge index : Nat) : Option UInt32 :=
  (ws.reverse.find? fun w => w.edge = edge ∧ w.index = index).map word

theorem latest_append (ws : List WordWrite) (w : WordWrite) (edge index : Nat) :
    latest (ws ++ [w]) edge index =
      if w.edge = edge ∧ w.index = index then some w.word else latest ws edge index := by
  rw [latest, List.reverse_append, List.reverse_singleton, List.singleton_append, List.find?_cons]
  by_cases h : w.edge = edge ∧ w.index = index
  · rw [if_pos h, decide_eq_true h, Option.map_some]
  · rw [if_neg h, decide_eq_false h]
    rfl

end WordWrite

namespace EdgeStorage

variable {width edges : Nat} {ws : List WordWrite} {s : EdgeStorage width}

/-- An index past the words of an edge stops a write, and nothing changes. -/
theorem perform_of_le {w : WordWrite} (hindex : width ≤ w.index) (s : EdgeStorage width) :
    w.perform s = .error (.wordPastWidth w.index width) s :=
  dif_neg (Nat.not_lt.2 hindex)

theorem perform_of_lt {w : WordWrite} (hindex : w.index < width) (s : EdgeStorage width) :
    w.perform s = .ok () (s.put w.edge w.index w.word hindex) :=
  dif_pos hindex

/-- Those of some writes that find their word. -/
def inside (width : Nat) (ws : List WordWrite) : List WordWrite :=
  ws.filter fun w => w.index < width

theorem inside_append_of_lt {w : WordWrite} (hindex : w.index < width) (ws : List WordWrite) :
    inside width (ws ++ [w]) = inside width ws ++ [w] := by
  simp [inside, hindex]

theorem inside_append_of_le {w : WordWrite} (hindex : width ≤ w.index) (ws : List WordWrite) :
    inside width (ws ++ [w]) = inside width ws := by
  simp [inside, Nat.not_lt.2 hindex]

/-- Storage that started with room for some edges and took some writes: every cell has the words
    last written, the edges are counted up to the last one written, and the row of all words is the
    zeros of the start with one word after the other set at its position, none of which fails. -/
structure Took (edges : Nat) (ws : List WordWrite) (s : EdgeStorage width) : Prop where
  getElem_cell : ∀ edge index (hindex : index < width),
    (s.cell edge)[index] = (WordWrite.latest ws edge index).getD 0
  edgeCount_eq : s.edgeCount =
    if width = 0 then 0 else ((inside width ws).map fun w => w.edge + 1).foldl max edges
  words_eq : (inside width ws).foldlM (fun row w => rowSet width w.edge w.index w.word row)
    (rowOf width edges) = some s.words

theorem Took.stateAfter (hs : s.Took edges ws) {w : WordWrite}
    (hw : w.index < width → Addressable width w.edge) :
    (stateAfter WordWrite.perform s w).Took edges (ws ++ [w]) := by
  rcases Nat.lt_or_ge w.index width with hindex | hindex
  · rw [stateAfter_of_ok (perform_of_lt hindex s)]
    refine ⟨fun edge index hlt => ?_, ?_, ?_⟩
    · rw [cell_put, WordWrite.latest_append]
      by_cases hedge : w.edge = edge
      · subst hedge
        rw [if_pos rfl, Vector.getElem_set]
        by_cases hword : w.index = index
        · rw [if_pos hword, if_pos ⟨rfl, hword⟩, Option.getD_some]
        · rw [if_neg hword, if_neg fun h => hword h.2, hs.getElem_cell w.edge index hlt]
      · rw [if_neg hedge, if_neg fun h => hedge h.1, hs.getElem_cell edge index hlt]
    · have hwidth : width ≠ 0 := Nat.ne_of_gt (Nat.zero_lt_of_lt hindex)
      rw [edgeCount_put, hs.edgeCount_eq, inside_append_of_lt hindex, if_neg hwidth, if_neg hwidth,
        List.map_append, List.foldl_append]
      rfl
    · rw [inside_append_of_lt hindex, List.foldlM_append, hs.words_eq]
      change (rowSet width w.edge w.index w.word s.words >>= pure) = _
      rw [bind_pure, s.rowSet_words (hw hindex) w.word hindex]
  · rw [stateAfter_of_error (perform_of_le hindex s)]
    refine ⟨fun edge index hlt => ?_, ?_, ?_⟩
    · rw [hs.getElem_cell edge index hlt, WordWrite.latest_append, if_neg (by omega)]
    · rw [hs.edgeCount_eq, inside_append_of_le hindex]
    · rw [inside_append_of_le hindex, hs.words_eq]

theorem Took.word_eq (hs : s.Took edges ws) (edge index : Nat) : s.word edge index =
    if index < width then .ok ((WordWrite.latest ws edge index).getD 0)
    else .error (.wordPastWidth index width) := by
  by_cases hindex : index < width
  · rw [if_pos hindex, s.word_eq edge hindex, hs.getElem_cell edge index hindex]
  · rw [if_neg hindex, word, dif_neg hindex]

end EdgeStorage

end EdgeAttributes
