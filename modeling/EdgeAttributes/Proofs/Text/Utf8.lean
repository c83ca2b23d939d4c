import Mathlib

namespace EdgeAttributes.Text

/-- The bytes of a text. -/
def utf8 (s : String) : List UInt8 := s.toUTF8.toList

theorem toList_byteArray (bytes : ByteArray) : bytes.toList = bytes.data.toList := by
  have hloop (i : Nat) (before : List UInt8) : ByteArray.toList.loop bytes i before =
      before.reverse ++ bytes.data.toList.drop i := by
    fun_induction ByteArray.toList.loop bytes i before with
    | case1 i before h ih =>
      have hi : i < bytes.data.toList.length := by simpa using h
      rw [ih, List.drop_eq_getElem_cons hi]
      simp [ByteArray.get!, h]
    | case2 i before h =>
      rw [List.drop_eq_nil_of_le (by simpa using h)]
      simp
  exact (hloop 0 []).trans (by simp)

theorem utf8_eq_flatMap (s : String) : utf8 s = s.toList.flatMap String.utf8EncodeChar := by
  rw [utf8, String.toUTF8_eq_toByteArray, ← String.utf8Encode_toList, toList_byteArray,
    List.utf8Encode, List.toList_data_toByteArray]

@[simp] theorem utf8_append (s t : String) : utf8 (s ++ t) = utf8 s ++ utf8 t := by
  simp only [utf8_eq_flatMap, String.toList_append, List.flatMap_append]

theorem utf8_eq_nil_iff {s : String} : utf8 s = [] ↔ s = "" := by
  rw [utf8_eq_flatMap, List.flatMap_eq_nil_iff, ← String.toList_eq_nil_iff]
  constructor
  · intro h
    exact List.eq_nil_iff_forall_not_mem.2 fun c hc => String.utf8EncodeChar_ne_nil (h c hc)
  · intro h c hc
    rw [h] at hc
    cases hc

/-- A byte below 128 stands for the character with its number, and for nothing else. -/
theorem toNat_of_mem_utf8EncodeChar {c : Char} {b : UInt8} (h : b ∈ String.utf8EncodeChar c)
    (hb : b.toNat < 0x80) : c.toNat = b.toNat := by
  rw [String.utf8EncodeChar] at h
  change c.val.toNat = b.toNat
  split_ifs at h with h1 h2 h3
  all_goals simp only [List.mem_cons, List.not_mem_nil, or_false] at h
  · rw [h, UInt8.toNat_ofNat']
    omega
  · rcases h with rfl | rfl <;> simp at hb <;> omega
  · rcases h with rfl | rfl | rfl <;> simp at hb <;> omega
  · rcases h with rfl | rfl | rfl | rfl <;> simp at hb <;> omega

theorem exists_of_mem_utf8 {s : String} {b : UInt8} (h : b ∈ utf8 s) (hb : b.toNat < 0x80) :
    ∃ c ∈ s.toList, c.toNat = b.toNat := by
  rw [utf8_eq_flatMap] at h
  obtain ⟨c, hc, hmem⟩ := List.mem_flatMap.1 h
  exact ⟨c, hc, toNat_of_mem_utf8EncodeChar hmem hb⟩

end EdgeAttributes.Text
