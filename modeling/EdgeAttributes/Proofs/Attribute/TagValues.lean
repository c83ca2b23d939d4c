import EdgeAttributes.Attribute.RoadAccess
import EdgeAttributes.Attribute.RoadClass
import EdgeAttributes.Attribute.Roundabout
import Mathlib

namespace EdgeAttributes

/-- An ending that was dropped can be put back. -/
theorem Text.dropEnding?_eq_some_iff {ending s base : String} :
    dropEnding? ending s = some base ↔ s = base ++ ending := by
  rw [dropEnding?]
  constructor
  · intro h
    split at h
    · next hsuffix =>
      obtain ⟨stem, hstem⟩ := hsuffix
      rw [← Option.some.inj h, ← String.toList_inj, String.toList_append, String.toList_ofList,
        ← hstem]
      simp
    · cases h
  · rintro rfl
    simp

namespace TagEnum

/-- Spellings of distinct values differ in more than the case of letters, and none is empty. -/
class DistinctSpellings (α : Type) [DecidableEq α] [TagEnum α] : Prop where
  nodup_folded : ((values α).map fun a => Text.folded (spelling a)).Nodup
  nonempty : "" ∉ spellings α

instance : DistinctSpellings RoadClass := ⟨by decide, by decide⟩

instance : DistinctSpellings RoadAccess := ⟨by decide, by decide⟩

variable {α : Type} [DecidableEq α] [TagEnum α]

/-- A text names the value that is spelled like it, up to the case of letters. Any other text, and
    no text at all, name `missing`. -/
inductive Names : Option String → α → Prop
  | spelled {text : String} {a : α} (h : Text.sameIgnoringCase (spelling a) text) :
      Names (some text) a
  | unknown {text : String} (h : ∀ a : α, ¬ Text.sameIgnoringCase (spelling a) text) :
      Names (some text) missing
  | absent : Names none missing

variable [DistinctSpellings α]

private theorem Names.unique {text : Option String} {a b : α} (ha : Names text a)
    (hb : Names text b) : a = b := by
  cases ha with
  | spelled ha =>
    cases hb with
    | spelled hb =>
      rw [Text.sameIgnoringCase_iff] at ha hb
      exact List.inj_on_of_nodup_map DistinctSpellings.nodup_folded (mem_values a) (mem_values b)
        (ha.trans hb.symm)
    | unknown hnone => exact absurd ha (hnone a)
  | unknown hnone =>
    cases hb with
    | spelled hb => exact absurd hb (hnone b)
    | unknown _ => rfl
  | absent =>
    cases hb
    rfl

private theorem not_sameIgnoringCase_empty (a : α) : ¬ Text.sameIgnoringCase (spelling a) "" := by
  intro h
  rw [Text.sameIgnoringCase_iff] at h
  have hspelling : spelling a = "" := by simpa [Text.folded] using h
  apply DistinctSpellings.nonempty (α := α)
  rw [← hspelling]
  exact List.mem_map_of_mem (mem_values a)

private theorem names_find (text : Option String) : Names text (find text : α) := by
  cases text with
  | none => exact .absent
  | some text =>
    by_cases hempty : text.isEmpty
    · rw [find, if_pos hempty]
      rw [String.isEmpty_iff] at hempty
      subst hempty
      exact .unknown not_sameIgnoringCase_empty
    · rw [find, if_neg hempty]
      cases hfind : (values α).find? fun v => Text.sameIgnoringCase (spelling v) text with
      | some a =>
        have hspelling := List.find?_some hfind
        exact .spelled hspelling
      | none => exact .unknown fun a => List.find?_eq_none.1 hfind a (mem_values a)

/-- What a text is found to be is what it names. -/
theorem names_iff {text : Option String} {a : α} : Names text a ↔ find text = a := by
  constructor
  · exact fun h => (names_find text).unique h
  · rintro rfl
    exact names_find text

end TagEnum

/-- The category of a way is the one that its `highway` tag names. Of a value that ends in `_link`
    it is the one that the rest names, and a way without the tag has none. -/
inductive Way.HasRoadClass (way : Way) : RoadClass → Prop
  | road {highway : String} {c : RoadClass} (htag : way.tag "highway" = some highway)
      (hroad : ∀ stem, highway ≠ stem ++ "_link") (hname : TagEnum.Names (some highway) c) :
      HasRoadClass way c
  | link {stem : String} {c : RoadClass} (htag : way.tag "highway" = some (stem ++ "_link"))
      (hname : TagEnum.Names (some stem) c) : HasRoadClass way c
  | absent (htag : way.tag "highway" = none) : HasRoadClass way .missing

theorem Way.hasRoadClass_iff {way : Way} {c : RoadClass} :
    way.HasRoadClass c ↔ RoadClass.ofWay way = c := by
  rw [RoadClass.ofWay]
  constructor
  · intro h
    cases h with
    | @road highway c htag hroad hname =>
      have hnone : Text.dropEnding? "_link" highway = none := by
        rw [Option.eq_none_iff_forall_ne_some]
        exact fun stem hstem => hroad stem (Text.dropEnding?_eq_some_iff.1 hstem)
      rw [htag, Option.map_some, Option.getD_some, RoadClass.ofHighway, hnone]
      exact TagEnum.names_iff.1 hname
    | link htag hname =>
      rw [htag, Option.map_some, Option.getD_some, RoadClass.ofHighway,
        Text.dropEnding?_eq_some_iff.2 rfl]
      exact TagEnum.names_iff.1 hname
    | absent htag =>
      rw [htag]
      rfl
  · rintro rfl
    cases htag : way.tag "highway" with
    | none => exact .absent htag
    | some highway =>
      rw [Option.map_some, Option.getD_some, RoadClass.ofHighway]
      cases hstem : Text.dropEnding? "_link" highway with
      | none =>
        refine .road htag (fun stem heq => ?_) (TagEnum.names_iff.2 rfl)
        rw [Text.dropEnding?_eq_some_iff.2 heq] at hstem
        cases hstem
      | some stem =>
        rw [Text.dropEnding?_eq_some_iff.1 hstem] at htag
        exact .link htag (TagEnum.names_iff.2 rfl)

namespace RoadAccess

/-- What an entry of a list stands for: three exact spellings for yes, one for private, and any
    other for what it names. -/
inductive Means : String → RoadAccess → Prop
  | granted {entry : String} (h : entry ∈ ["designated", "official", "permissive"]) :
      Means entry yes
  | permit : Means "permit" privateOnly
  | named {entry : String} {a : RoadAccess}
      (h : entry ∉ ["designated", "official", "permissive", "permit"])
      (hname : TagEnum.Names (some entry) a) : Means entry a

theorem means_iff {entry : String} {a : RoadAccess} : Means entry a ↔ ofEntry entry = a := by
  constructor
  · intro h
    cases h with
    | granted h =>
      simp only [List.mem_cons, List.not_mem_nil, or_false] at h
      obtain rfl | rfl | rfl := h <;> rfl
    | permit => rfl
    | named h hname =>
      simp only [List.mem_cons, List.not_mem_nil, or_false, not_or] at h
      obtain ⟨hdesignated, hofficial, hpermissive, hpermit⟩ := h
      rw [ofEntry]
      · exact TagEnum.names_iff.1 hname
      · exact hdesignated
      · exact hofficial
      · exact hpermissive
      · exact hpermit
  · rintro rfl
    rw [ofEntry.eq_def]
    split
    · exact .granted (by simp)
    · exact .granted (by simp)
    · exact .granted (by simp)
    · exact .permit
    · exact .named (by simp_all) (TagEnum.names_iff.2 rfl)

private theorem ordinal_le_stricter (a b : RoadAccess) :
    TagEnum.ordinal a ≤ TagEnum.ordinal (stricter a b) ∧
      TagEnum.ordinal b ≤ TagEnum.ordinal (stricter a b) := by
  rw [stricter]
  split
  · next hle => exact ⟨hle, le_refl _⟩
  · next hlt => exact ⟨le_refl _, Nat.le_of_lt (Nat.lt_of_not_le hlt)⟩

private theorem stricter_eq_or (a b : RoadAccess) : stricter a b = a ∨ stricter a b = b := by
  rw [stricter]
  split
  · exact .inr rfl
  · exact .inl rfl

private theorem foldl_stricter (l : List RoadAccess) (a : RoadAccess) :
    l.foldl stricter a ∈ a :: l ∧
      ∀ b ∈ a :: l, TagEnum.ordinal b ≤ TagEnum.ordinal (l.foldl stricter a) := by
  induction l generalizing a with
  | nil => simp
  | cons b l ih =>
    obtain ⟨hmem, hmax⟩ := ih (stricter a b)
    obtain ⟨hfirst, hlater⟩ := List.forall_mem_cons.1 hmax
    obtain ⟨hle, hle'⟩ := ordinal_le_stricter a b
    rw [List.foldl_cons]
    refine ⟨?_, List.forall_mem_cons.2 ⟨hle.trans hfirst,
      List.forall_mem_cons.2 ⟨hle'.trans hfirst, hlater⟩⟩⟩
    obtain heq | hmem := List.mem_cons.1 hmem
    · rw [heq]
      obtain heq | heq := stricter_eq_or a b <;> simp [heq]
    · simp [hmem]

/-- The strictest of several is one of them, unless none is recognised, and no other is stricter. -/
theorem strictest_spec (l : List RoadAccess) : (strictest l = missing ∨ strictest l ∈ l) ∧
    ∀ a ∈ l, TagEnum.ordinal a ≤ TagEnum.ordinal (strictest l) := by
  obtain ⟨hmem, hmax⟩ := foldl_stricter l missing
  exact ⟨List.mem_cons.1 hmem, (List.forall_mem_cons.1 hmax).2⟩

theorem ordinal_strictest_le_iff {l : List RoadAccess} {n : Nat} :
    TagEnum.ordinal (strictest l) ≤ n ↔ ∀ a ∈ l, TagEnum.ordinal a ≤ n := by
  obtain ⟨hmem, hmax⟩ := strictest_spec l
  refine ⟨fun hle a ha => (hmax a ha).trans hle, fun hall => ?_⟩
  obtain hmissing | hmem := hmem
  · rw [hmissing]
    exact (le_of_eq TagEnum.ordinal_missing).trans (Nat.zero_le n)
  · exact hall _ hmem

end RoadAccess

namespace Way

/-- The entries of the most specific restriction of a way, if there is one. -/
def restrictions? (way : Way) : Option (List String) :=
  ((way.tag "motor_vehicle").or ((way.tag "vehicle").or (way.tag "access"))).map fun value =>
    (Text.split ';' value).map Text.trim

/-- The access of a way is the strictest that an entry of its most specific restriction stands for.
    It is missing if no entry is recognised, and if there is no restriction. -/
inductive HasRoadAccess (way : Way) : RoadAccess → Prop
  | strictest {entries : List String} {entry : String} {a : RoadAccess}
      (hentries : way.restrictions? = some entries) (hentry : entry ∈ entries)
      (hmeans : RoadAccess.Means entry a) (hrecognised : a ≠ .missing)
      (hmax : ∀ other ∈ entries, ∀ b, RoadAccess.Means other b →
        TagEnum.ordinal b ≤ TagEnum.ordinal a) : HasRoadAccess way a
  | unrecognised {entries : List String} (hentries : way.restrictions? = some entries)
      (hnone : ∀ entry ∈ entries, RoadAccess.Means entry .missing) : HasRoadAccess way .missing
  | absent (hnone : way.restrictions? = none) : HasRoadAccess way .missing

/-- The access of a way is the strictest of its restriction. -/
theorem ofWay_eq_strictest (way : Way) : RoadAccess.ofWay way =
    (way.restrictions?.map fun entries =>
      RoadAccess.strictest (entries.map RoadAccess.ofEntry)).getD .missing := by
  rw [RoadAccess.ofWay, firstValue, restrictions?]
  simp only [RoadAccess.restrictionKeys, List.findSome?_cons, List.findSome?_nil]
  cases way.tag "motor_vehicle" with
  | some value => simp [RoadAccess.ofValue, Function.comp_def]
  | none =>
    cases way.tag "vehicle" with
    | some value => simp [RoadAccess.ofValue, Function.comp_def]
    | none => cases way.tag "access" <;> simp [RoadAccess.ofValue, Function.comp_def]

theorem hasRoadAccess_iff {way : Way} {a : RoadAccess} :
    way.HasRoadAccess a ↔ RoadAccess.ofWay way = a := by
  rw [ofWay_eq_strictest]
  constructor
  · intro h
    cases h with
    | @strictest entries entry a hentries hentry hmeans hrecognised hmax =>
      rw [hentries, Option.map_some, Option.getD_some]
      obtain ⟨hmem, hle⟩ := RoadAccess.strictest_spec (entries.map RoadAccess.ofEntry)
      apply TagEnum.ordinal_injective
      apply le_antisymm
      · obtain hmissing | hmem := hmem
        · rw [hmissing]
          exact (le_of_eq TagEnum.ordinal_missing).trans (Nat.zero_le _)
        · obtain ⟨other, hother, heq⟩ := List.mem_map.1 hmem
          exact hmax other hother _ (RoadAccess.means_iff.2 heq)
      · rw [← RoadAccess.means_iff.1 hmeans]
        exact hle _ (List.mem_map_of_mem hentry)
    | @unrecognised entries hentries hnone =>
      rw [hentries, Option.map_some, Option.getD_some]
      obtain ⟨hmissing | hmem, -⟩ := RoadAccess.strictest_spec (entries.map RoadAccess.ofEntry)
      · exact hmissing
      · obtain ⟨other, hother, heq⟩ := List.mem_map.1 hmem
        rw [← heq]
        exact RoadAccess.means_iff.1 (hnone other hother)
    | absent hnone =>
      rw [hnone]
      rfl
  · rintro rfl
    cases hentries : way.restrictions? with
    | none => exact .absent hentries
    | some entries =>
      rw [Option.map_some, Option.getD_some]
      obtain ⟨hmem, hle⟩ := RoadAccess.strictest_spec (entries.map RoadAccess.ofEntry)
      have hmax : ∀ other ∈ entries, ∀ b, RoadAccess.Means other b → TagEnum.ordinal b ≤
          TagEnum.ordinal (RoadAccess.strictest (entries.map RoadAccess.ofEntry)) := by
        intro other hother b hb
        rw [← RoadAccess.means_iff.1 hb]
        exact hle _ (List.mem_map_of_mem hother)
      by_cases hmissing : RoadAccess.strictest (entries.map RoadAccess.ofEntry) = .missing
      · rw [hmissing] at hmax ⊢
        refine .unrecognised hentries fun entry hentry => RoadAccess.means_iff.2 ?_
        have hzero := hmax entry hentry _ (RoadAccess.means_iff.2 rfl)
        exact TagEnum.ordinal_injective (Nat.le_antisymm hzero (Nat.zero_le _))
      · obtain ⟨entry, hentry, heq⟩ := List.mem_map.1 (hmem.resolve_left hmissing)
        exact .strictest hentries hentry (RoadAccess.means_iff.2 heq) hmissing hmax

theorem isRoundabout_eq (way : Way) : way.isRoundabout =
    decide (way.tag "junction" = some "roundabout" ∨ way.tag "junction" = some "circular") := by
  rw [isRoundabout, hasTagIn]
  cases way.tag "junction" <;> simp

end Way

end EdgeAttributes
