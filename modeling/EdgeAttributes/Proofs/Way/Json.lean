import EdgeAttributes.Proofs.Json.Value
import EdgeAttributes.Way.Json
import Mathlib

namespace EdgeAttributes

namespace Json

theorem digitsValue_toDigits (n : Nat) : Decimal.digitsValue (Nat.toDigits 10 n) = n := by
  have hvalue := Nat.ofDigitChars_ten_toDigits (n := n)
  rw [Nat.ofDigitChars_eq_foldl] at hvalue
  simpa only [Decimal.digitsValue, Nat.mul_comm] using hvalue

/-- An integer is read back from the digits that it is written in. -/
theorem integer?_toString (n : Int) : integer? (toString n).toList = some n := by
  have hdigits (m : Nat) : (Nat.toDigits 10 m).all Char.isDigit :=
    List.all_eq_true.2 fun c hc => isDigit_of_mem_toDigits hc
  rcases n with n | n
  · rw [toList_toString_ofNat, integer?, if_pos (hdigits n), digitsValue_toDigits]
    · rfl
    · exact fun cs hcs => toDigits_append_ne n [] cs (by rw [List.append_nil, hcs])
  · have hzero : Nat.toDigits 10 (n + 1) ≠ ['0'] := fun h =>
      head?_toDigits_ne n.succ_pos (congrArg List.head? h)
    rw [toList_toString_negSucc, integer?, if_pos (by simp [hdigits, hzero]), digitsValue_toDigits]
    rfl

theorem Value.int64?_integer (n : Int64) : (Value.integer n.toInt).int64? = some n := by
  simp only [Value.integer, Value.int64?, integer?_toString, Option.bind_eq_bind, Option.bind_some,
    n.minValue_le_toInt, n.toInt_le, and_self, if_true, Int64.ofInt_toInt]

theorem Value.text?_text (s : String) : (Value.text s).text? = some s := text?_pieces s

end Json

namespace Way

open Json (Value)

theorem mapM_texts (l : List (String × String)) :
    (l.map fun e => (Json.pieces e.1, Value.text e.2)).mapM
      (fun e => do some (← Json.text? e.1, ← e.2.text?)) = some l := by
  induction l with
  | nil => rfl
  | cons e l ih =>
    simp only [List.map_cons, List.mapM_cons, ih, Json.text?_pieces, Value.text?_text]
    rfl

theorem tagsOfJson?_ofFields (m : SortedMap String) :
    tagsOfJson? (.ofFields (m.entries.map fun e => (e.1, .text e.2))) = some m := by
  have hread := congrArg (Option.map SortedMap.ofList) (mapM_texts m.entries)
  rw [Option.map_some, SortedMap.ofList_entries] at hread
  rw [Value.ofFields, List.map_map, tagsOfJson?]
  exact hread

theorem ofJson?_ofFields (id tags : Value) :
    ofJson? (.ofFields [("id", id), ("tags", tags)]) =
      id.int64?.bind fun n => (tagsOfJson? tags).bind fun m => some ⟨n, m⟩ := by
  rw [Value.ofFields, ofJson?]
  simp only [List.map_cons, List.map_nil, List.mapM_cons, List.mapM_nil, Json.text?_pieces]
  rfl

theorem ofJson?_toJson (w : Way) : ofJson? w.toJson = some w := by
  rw [toJson, ofJson?_ofFields, Value.int64?_integer, tagsOfJson?_ofFields]
  rfl

theorem proper_toJson (w : Way) : w.toJson.Proper := by
  refine Value.proper_ofFields fun f hf => ?_
  rcases List.mem_pair.1 hf with rfl | rfl
  · exact Value.proper_integer _
  · refine Value.proper_ofFields fun e he => ?_
    obtain ⟨tag, -, rfl⟩ := List.mem_map.1 he
    exact Value.proper_text _

/-- A way is read back from its compact text. -/
theorem parse?_render (w : Way) : parse? w.render = some w := by
  rw [parse?, render, Value.parse?_render w.proper_toJson]
  exact w.ofJson?_toJson

theorem exists_render_eq_cons (w : Way) : ∃ cs, w.render.toList = '{' :: cs := by
  rw [render, Value.render, String.toList_ofList]
  exact ⟨_, rfl⟩

/-- What a way is written as fits on a line, whatever its tags hold. -/
theorem not_isControl_of_mem_render (w : Way) {c : Char} (h : c ∈ w.render.toList) :
    ¬Json.isControl c :=
  Value.not_isControl_of_mem_render w.proper_toJson h

end Way

end EdgeAttributes
