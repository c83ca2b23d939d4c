import EdgeAttributes.Text.AsciiCase
import EdgeAttributes.Text.Blank
import EdgeAttributes.Text.Split
import Mathlib

namespace EdgeAttributes.Text

/-- The ASCII capital of a small letter; any other character itself. -/
def raiseCase (c : Char) : Char :=
  if 'a' ≤ c ∧ c ≤ 'z' then Char.ofNat (c.toNat - 32) else c

theorem toNat_foldCase (c : Char) :
    (foldCase c).toNat = if 65 ≤ c.toNat ∧ c.toNat ≤ 90 then c.toNat + 32 else c.toNat := by
  have hcapital : ('A' ≤ c ∧ c ≤ 'Z') ↔ 65 ≤ c.toNat ∧ c.toNat ≤ 90 := Iff.rfl
  simp only [foldCase, hcapital]
  split
  · next h =>
    have hvalid : (c.toNat + 32).isValidChar := .inl (by omega)
    rw [Char.toNat_ofNat, if_pos hvalid]
  · rfl

theorem toNat_raiseCase (c : Char) :
    (raiseCase c).toNat = if 97 ≤ c.toNat ∧ c.toNat ≤ 122 then c.toNat - 32 else c.toNat := by
  have hsmall : ('a' ≤ c ∧ c ≤ 'z') ↔ 97 ≤ c.toNat ∧ c.toNat ≤ 122 := Iff.rfl
  simp only [raiseCase, hsmall]
  split
  · next h =>
    have hvalid : (c.toNat - 32).isValidChar := .inl (by omega)
    rw [Char.toNat_ofNat, if_pos hvalid]
  · rfl

/-- No small letter is left in a text of capitals. -/
theorem notMem_map_raiseCase {c : Char} (hc : 97 ≤ c.toNat ∧ c.toNat ≤ 122) (s : String) :
    c ∉ (s.map raiseCase).toList := by
  rw [String.toList_map, List.mem_map]
  rintro ⟨b, -, rfl⟩
  rw [toNat_raiseCase] at hc
  split at hc <;> omega

theorem folded_append (s t : String) : folded (s ++ t) = folded s ++ folded t := by
  rw [folded, String.toList_append, List.map_append, folded, folded]

/-- A change of characters that shows in nothing but the case of letters. -/
def Recases (g : Char → Char) : Prop := ∀ c, foldCase (g c) = foldCase c

theorem recases_foldCase : Recases foldCase := by
  intro c
  rw [← Char.toNat_inj]
  simp only [toNat_foldCase]
  split <;> grind

theorem recases_raiseCase : Recases raiseCase := by
  intro c
  rw [← Char.toNat_inj]
  simp only [toNat_foldCase, toNat_raiseCase]
  split <;> grind

private theorem isBlank_foldCase (c : Char) : isBlank (foldCase c) = isBlank c := by
  by_cases h : 65 ≤ c.toNat ∧ c.toNat ≤ 90
  · simp only [isBlank, toNat_foldCase, if_pos h]
    grind
  · simp only [isBlank, toNat_foldCase, if_neg h]

private theorem foldCase_eq_semicolon_iff (c : Char) : foldCase c = ';' ↔ c = ';' := by
  rw [← Char.toNat_inj, ← Char.toNat_inj, toNat_foldCase]
  have hsemicolon : ';'.toNat = 59 := rfl
  split <;> omega

theorem splitChars_map {g : Char → Char} {sep : Char} (hsep : ∀ c, g c = sep ↔ c = sep)
    (cs : List Char) : splitChars sep (cs.map g) = (splitChars sep cs).map (List.map g) := by
  induction cs with
  | nil => rfl
  | cons c cs ih =>
    rw [List.map_cons, splitChars, splitChars, ih]
    simp only [hsep]
    split
    · rfl
    · cases splitChars sep cs <;> rfl

theorem trimChars_map {g : Char → Char} (hblank : ∀ c, isBlank (g c) = isBlank c)
    (cs : List Char) : trimChars (cs.map g) = (trimChars cs).map g := by
  have hcomp : isBlank ∘ g = isBlank := funext hblank
  simp only [trimChars, List.dropWhile_map, hcomp, ← List.map_reverse]

namespace Recases

variable {g : Char → Char} (hg : Recases g)

include hg

theorem folded_map (s : String) : folded (s.map g) = folded s := by
  rw [folded, String.toList_map, List.map_map]
  exact List.map_congr_left fun c _ => hg c

private theorem isBlank_eq (c : Char) : isBlank (g c) = isBlank c := by
  rw [← isBlank_foldCase, hg, isBlank_foldCase]

private theorem eq_semicolon_iff (c : Char) : g c = ';' ↔ c = ';' := by
  rw [← foldCase_eq_semicolon_iff, hg, foldCase_eq_semicolon_iff]

/-- The entries of a list stay the same entries, in other case. -/
theorem entries_map (value : String) : (split ';' (value.map g)).map trim =
    ((split ';' value).map trim).map (String.map g) := by
  have htrim (cs : List Char) :
      trim (String.ofList (cs.map g)) = (trim (String.ofList cs)).map g := by
    rw [← String.toList_inj, String.toList_map]
    simp only [trim, String.toList_ofList, trimChars_map hg.isBlank_eq]
  rw [split, String.toList_map, splitChars_map hg.eq_semicolon_iff, split]
  simp only [List.map_map]
  exact List.map_congr_left fun cs _ => htrim cs

end Recases

/-- Lists that differ in the case of letters only have entries that do. -/
theorem folded_entries {value value' : String} (h : folded value = folded value') :
    ((split ';' value).map trim).map folded = ((split ';' value').map trim).map folded := by
  have hentries (v : String) : ((split ';' v).map trim).map folded =
      ((split ';' (v.map foldCase)).map trim).map String.toList := by
    rw [recases_foldCase.entries_map, List.map_map (f := String.map foldCase)]
    exact List.map_congr_left fun entry _ => String.toList_map.symm
  have hvalue : value.map foldCase = value'.map foldCase := by
    rwa [← String.toList_inj, String.toList_map, String.toList_map]
  rw [hentries, hentries, hvalue]

end EdgeAttributes.Text
