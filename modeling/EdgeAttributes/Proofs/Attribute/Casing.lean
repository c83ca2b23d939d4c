import EdgeAttributes.Attribute.Moped
import EdgeAttributes.Proofs.Registry.Decoding
import EdgeAttributes.Proofs.Way.Casing

namespace EdgeAttributes

namespace TagEnum

variable {α : Type} [DecidableEq α] [TagEnum α]

/-- What a text is found to be does not depend on the case of its letters. -/
theorem find_congr {text text' : Option String}
    (h : text.map Text.folded = text'.map Text.folded) : (find text : α) = find text' := by
  cases text with
  | none =>
    rw [Option.map_none, eq_comm, Option.map_eq_none_iff] at h
    rw [h]
  | some t =>
    obtain ⟨u, rfl, heq⟩ := Option.map_eq_some_iff.1 h.symm
    have hempty : t.isEmpty = u.isEmpty := by
      have hlength : t.length = u.length := by
        rw [← String.length_toList, ← String.length_toList]
        simpa [Text.folded] using congrArg List.length heq.symm
      rw [Bool.eq_iff_iff, String.isEmpty_iff, String.isEmpty_iff, ← String.length_eq_zero_iff,
        ← String.length_eq_zero_iff, hlength]
    simp only [find, hempty, Text.sameIgnoringCase, heq]

theorem find_some_congr {s t : String} (h : Text.folded s = Text.folded t) :
    (find (some s) : α) = find (some t) :=
  find_congr (congrArg some h)

end TagEnum

namespace RoadClass

/-- No category is spelled with the ending of a link, so a text with that ending names none. -/
private theorem find_eq_missing_of_link {highway stem : String}
    (h : Text.sameIgnoringCase highway (stem ++ "_link")) :
    (TagEnum.find (some highway) : RoadClass) = .missing := by
  rw [Text.sameIgnoringCase_iff, Text.folded_append] at h
  have hnone : ∀ c : RoadClass, ¬ Text.folded "_link" <:+ Text.folded (TagEnum.spelling c) := by
    intro c
    cases c <;> decide
  refine TagEnum.names_iff.1 (.unknown fun c hspelling => hnone c ?_)
  rw [Text.sameIgnoringCase_iff.1 hspelling, h]
  exact List.suffix_append _ _

end RoadClass

namespace Way

/-- The way is a link of a category of road, whatever the case of letters. -/
def LinksRoad (way : Way) : Prop :=
  ∃ highway stem, way.tag "highway" = some highway ∧
    Text.sameIgnoringCase highway (stem ++ "_link") ∧
    (TagEnum.find (some stem) : RoadClass) ≠ .missing

/-- The category of a way that is no link is the one that its whole `highway` value names. -/
private theorem roadClass_of_not_linksRoad {way : Way} (h : ¬ way.LinksRoad) :
    RoadClass.ofWay way = TagEnum.find (way.tag "highway") := by
  refine hasRoadClass_iff.1 ?_
  cases htag : way.tag "highway" with
  | none => exact .absent htag
  | some highway =>
    by_cases hlink : ∃ stem, highway = stem ++ "_link"
    · obtain ⟨stem, rfl⟩ := hlink
      have hself := Text.sameIgnoringCase_refl (stem ++ "_link")
      have hstem : (TagEnum.find (some stem) : RoadClass) = .missing :=
        not_not.1 fun hne => h ⟨_, stem, htag, hself, hne⟩
      rw [RoadClass.find_eq_missing_of_link hself]
      exact .link htag (TagEnum.names_iff.2 hstem)
    · exact .road htag (fun stem heq => hlink ⟨stem, heq⟩) (TagEnum.names_iff.2 rfl)

theorem SameButCase.linksRoad {way way' : Way} (h : way.SameButCase way')
    (hlinks : way.LinksRoad) : way'.LinksRoad := by
  obtain ⟨highway, stem, htag, hlink, hstem⟩ := hlinks
  have hhighway := h "highway"
  rw [htag, Option.map_some, eq_comm, Option.map_eq_some_iff] at hhighway
  obtain ⟨highway', htag', hfolded⟩ := hhighway
  refine ⟨highway', stem, htag', ?_, hstem⟩
  rw [Text.sameIgnoringCase_iff] at hlink ⊢
  exact hfolded.trans hlink

/-- In small letters a link has the category that it links, and in capitals it has none. -/
private theorem roadClass_recase {way : Way} {highway stem : String}
    (htag : way.tag "highway" = some highway)
    (hlink : Text.sameIgnoringCase highway (stem ++ "_link")) :
    RoadClass.ofWay (way.recase Text.foldCase) = TagEnum.find (some stem) ∧
      RoadClass.ofWay (way.recase Text.raiseCase) = .missing := by
  have hcase := Text.sameIgnoringCase_iff.1 hlink
  have htag' (g : Char → Char) : (way.recase g).tag "highway" = some (highway.map g) := by
    rw [tag_recase, htag, Option.map_some]
  constructor
  · have hsmall : highway.map Text.foldCase = stem.map Text.foldCase ++ "_link" := by
      rw [← String.toList_inj, String.toList_append, String.toList_map, String.toList_map]
      exact hcase.trans (Text.folded_append stem "_link")
    refine hasRoadClass_iff.1 (.link ((htag' _).trans (congrArg some hsmall)) ?_)
    exact TagEnum.names_iff.2 (TagEnum.find_some_congr (Text.recases_foldCase.folded_map stem))
  · refine hasRoadClass_iff.1 (.road (htag' _) (fun base heq => ?_) (TagEnum.names_iff.2 ?_))
    · refine Text.notMem_map_raiseCase (c := 'k') (by decide) highway ?_
      rw [heq, String.toList_append]
      exact List.mem_append_right _ (by decide)
    · have hlink' : Text.sameIgnoringCase (highway.map Text.raiseCase) (stem ++ "_link") := by
        rw [Text.sameIgnoringCase_iff, Text.recases_raiseCase.folded_map, hcase]
      exact RoadClass.find_eq_missing_of_link hlink'

/-- Only links have a category that depends on the case of letters. -/
theorem roadClass_ignoresCase_iff {way : Way} :
    (∀ way', way.SameButCase way' → RoadClass.ofWay way' = RoadClass.ofWay way) ↔
      ¬ way.LinksRoad := by
  constructor
  · rintro hsame ⟨highway, stem, htag, hlink, hstem⟩
    obtain ⟨hsmall, hcapital⟩ := roadClass_recase htag hlink
    apply hstem
    rw [← hsmall, ← hcapital, hsame _ (sameButCase_recase Text.recases_foldCase way),
      hsame _ (sameButCase_recase Text.recases_raiseCase way)]
  · intro hnot way' h
    have hnot' : ¬ way'.LinksRoad := mt h.symm.linksRoad hnot
    rw [roadClass_of_not_linksRoad hnot, roadClass_of_not_linksRoad hnot']
    exact TagEnum.find_congr (h.symm "highway")

end Way

namespace RoadAccess

/-- The spellings that are read as a value without being its own, and what they are read as. -/
def aliases : List (String × RoadAccess) :=
  [("designated", yes), ("official", yes), ("permissive", yes), ("permit", privateOnly)]

/-- An entry that is a further spelling of a value, whatever the case of letters. -/
def AliasOf (entry : String) (a : RoadAccess) : Prop :=
  ∃ p ∈ aliases, p.2 = a ∧ Text.sameIgnoringCase entry p.1

/-- A further spelling is not found among those of the values. -/
theorem AliasOf.find_eq {entry : String} {a : RoadAccess} (h : AliasOf entry a) :
    (TagEnum.find (some entry) : RoadAccess) = .missing := by
  have hall : ∀ p ∈ aliases, (TagEnum.find (some p.1) : RoadAccess) = .missing := by decide
  obtain ⟨p, hp, -, hentry⟩ := h
  rw [TagEnum.find_some_congr (Text.sameIgnoringCase_iff.1 hentry), hall p hp]

/-- In small letters a further spelling is recognised. -/
theorem AliasOf.ofEntry_small {entry : String} {a : RoadAccess} (h : AliasOf entry a) :
    ofEntry (entry.map Text.foldCase) = a := by
  have hall : ∀ p ∈ aliases, Text.folded p.1 = p.1.toList ∧ ofEntry p.1 = p.2 := by decide
  obtain ⟨p, hp, rfl, hentry⟩ := h
  obtain ⟨hsmall, hmeans⟩ := hall p hp
  have hcase : entry.map Text.foldCase = p.1 := by
    rw [← String.toList_inj, String.toList_map, ← hsmall]
    exact Text.sameIgnoringCase_iff.1 hentry
  rw [hcase, hmeans]

/-- An entry is either a further spelling, exactly, or what is found for it. -/
theorem ofEntry_eq_or (entry : String) :
    (∃ p ∈ aliases, entry = p.1 ∧ ofEntry entry = p.2) ∨
      ofEntry entry = TagEnum.find (some entry) := by
  rw [ofEntry.eq_def]
  split
  · exact .inl ⟨("designated", yes), by decide, rfl, rfl⟩
  · exact .inl ⟨("official", yes), by decide, rfl, rfl⟩
  · exact .inl ⟨("permissive", yes), by decide, rfl, rfl⟩
  · exact .inl ⟨("permit", privateOnly), by decide, rfl, rfl⟩
  · exact .inr rfl

/-- In capitals no further spelling is recognised. -/
theorem ofEntry_capital (entry : String) :
    ofEntry (entry.map Text.raiseCase) = TagEnum.find (some entry) := by
  have hletter : ∀ p ∈ aliases, 'i' ∈ p.1.toList := by decide
  rw [← TagEnum.find_some_congr (Text.recases_raiseCase.folded_map entry)]
  refine (ofEntry_eq_or _).resolve_left ?_
  rintro ⟨p, hp, heq, -⟩
  refine Text.notMem_map_raiseCase (c := 'i') (by decide) entry ?_
  rw [heq]
  exact hletter p hp

/-- What is found for an entry is no stricter than what the entry stands for. -/
private theorem ordinal_find_le (entry : String) :
    TagEnum.ordinal (TagEnum.find (some entry) : RoadAccess) ≤ TagEnum.ordinal (ofEntry entry) := by
  obtain ⟨p, hp, rfl, -⟩ | hfind := ofEntry_eq_or entry
  · have halias : AliasOf p.1 p.2 := ⟨p, hp, rfl, Text.sameIgnoringCase_refl p.1⟩
    rw [halias.find_eq]
    exact (le_of_eq TagEnum.ordinal_missing).trans (Nat.zero_le _)
  · rw [hfind]

/-- Where further spellings are outdone by entries that are spelled as a value, the strictest entry
    is the strictest of those, in whatever case the list is written. -/
private theorem strictest_of_outdone {entries entries' : List String}
    (hcase : entries.map Text.folded = entries'.map Text.folded)
    (hout : ∀ entry ∈ entries, ∀ a, AliasOf entry a → ∃ other ∈ entries,
      TagEnum.ordinal a ≤ TagEnum.ordinal (TagEnum.find (some other) : RoadAccess)) :
    strictest (entries'.map ofEntry) =
      strictest (entries.map fun entry => TagEnum.find (some entry)) := by
  have hleft : ∀ entry' ∈ entries', ∃ entry ∈ entries, Text.folded entry = Text.folded entry' :=
    fun entry' hmem => List.mem_map.1 (hcase ▸ List.mem_map_of_mem hmem)
  have hright : ∀ entry ∈ entries, ∃ entry' ∈ entries', Text.folded entry' = Text.folded entry :=
    fun entry hmem => List.mem_map.1 (hcase ▸ List.mem_map_of_mem hmem)
  have hfound : ∀ entry ∈ entries, TagEnum.ordinal (TagEnum.find (some entry) : RoadAccess) ≤
      TagEnum.ordinal (strictest (entries.map fun entry => TagEnum.find (some entry))) :=
    fun entry hmem => (strictest_spec _).2 _ (List.mem_map_of_mem hmem)
  apply TagEnum.ordinal_injective
  apply le_antisymm
  · simp only [ordinal_strictest_le_iff, List.forall_mem_map]
    intro entry' hmem'
    obtain ⟨entry, hmem, hsame⟩ := hleft entry' hmem'
    obtain ⟨p, hp, rfl, hmeans⟩ | hfind := ofEntry_eq_or entry'
    · have halias : AliasOf entry p.2 := ⟨p, hp, rfl, Text.sameIgnoringCase_iff.2 hsame⟩
      obtain ⟨other, hother, hle⟩ := hout entry hmem p.2 halias
      rw [hmeans]
      exact hle.trans (hfound other hother)
    · rw [hfind, ← TagEnum.find_some_congr hsame]
      exact hfound entry hmem
  · simp only [ordinal_strictest_le_iff, List.forall_mem_map]
    intro entry hmem
    obtain ⟨entry', hmem', hsame⟩ := hright entry hmem
    rw [← TagEnum.find_some_congr hsame]
    exact (ordinal_find_le entry').trans ((strictest_spec _).2 _ (List.mem_map_of_mem hmem'))

end RoadAccess

namespace Way

/-- A further spelling decides the access of the way, whatever the case of letters: it is stricter
    than every entry that is spelled as a value. -/
def RestsOnAlias (way : Way) : Prop :=
  ∃ entries, way.restrictions? = some entries ∧ ∃ entry ∈ entries, ∃ a,
    RoadAccess.AliasOf entry a ∧ ∀ other ∈ entries,
      TagEnum.ordinal (TagEnum.find (some other) : RoadAccess) < TagEnum.ordinal a

/-- In small letters a further spelling counts, and in capitals only what is spelled as a value. -/
private theorem roadAccess_recase {way : Way} {entries : List String}
    (hentries : way.restrictions? = some entries) :
    (∀ entry ∈ entries, ∀ a, RoadAccess.AliasOf entry a → TagEnum.ordinal a ≤
      TagEnum.ordinal (RoadAccess.ofWay (way.recase Text.foldCase))) ∧
    RoadAccess.ofWay (way.recase Text.raiseCase) =
      RoadAccess.strictest (entries.map fun entry => TagEnum.find (some entry)) := by
  constructor
  · intro entry hmem a halias
    rw [ofWay_eq_strictest, restrictions?_recase Text.recases_foldCase, hentries, Option.map_some,
      Option.map_some, Option.getD_some, List.map_map, ← halias.ofEntry_small]
    refine (RoadAccess.strictest_spec _).2 _ (List.mem_map.2 ⟨entry, hmem, rfl⟩)
  · rw [ofWay_eq_strictest, restrictions?_recase Text.recases_raiseCase, hentries, Option.map_some,
      Option.map_some, Option.getD_some, List.map_map]
    congr 1
    exact List.map_congr_left fun entry _ => RoadAccess.ofEntry_capital entry

/-- Only an access that rests on a further spelling depends on the case of letters. -/
theorem roadAccess_ignoresCase_iff {way : Way} :
    (∀ way', way.SameButCase way' → RoadAccess.ofWay way' = RoadAccess.ofWay way) ↔
      ¬ way.RestsOnAlias := by
  constructor
  · rintro hsame ⟨entries, hentries, entry, hmem, a, halias, hless⟩
    obtain ⟨hsmall, hcapital⟩ := roadAccess_recase hentries
    have hle := hsmall entry hmem a halias
    have hlt := hless entry hmem
    rw [hsame _ (sameButCase_recase Text.recases_foldCase way),
      ← hsame _ (sameButCase_recase Text.recases_raiseCase way), hcapital] at hle
    have hbound : TagEnum.ordinal (RoadAccess.strictest
        (entries.map fun entry => TagEnum.find (some entry))) ≤ TagEnum.ordinal a - 1 := by
      simp only [RoadAccess.ordinal_strictest_le_iff, List.forall_mem_map]
      intro other hother
      have hother := hless other hother
      omega
    omega
  · intro hnot way' h
    have hcase := h.restrictions?
    rw [ofWay_eq_strictest, ofWay_eq_strictest]
    cases hentries : way.restrictions? with
    | none =>
      rw [hentries, Option.map_none, eq_comm, Option.map_eq_none_iff] at hcase
      rw [hcase]
    | some entries =>
      rw [hentries, Option.map_some, eq_comm, Option.map_eq_some_iff] at hcase
      obtain ⟨entries', hentries', hcase⟩ := hcase
      have hout : ∀ entry ∈ entries, ∀ a, RoadAccess.AliasOf entry a → ∃ other ∈ entries,
          TagEnum.ordinal a ≤ TagEnum.ordinal (TagEnum.find (some other) : RoadAccess) := by
        intro entry hmem a halias
        by_contra hnone
        refine hnot ⟨entries, hentries, entry, hmem, a, halias, fun other hother => ?_⟩
        exact Nat.lt_of_not_le fun hle => hnone ⟨other, hother, hle⟩
      rw [hentries', Option.map_some, Option.map_some, Option.getD_some, Option.getD_some,
        RoadAccess.strictest_of_outdone hcase.symm hout, RoadAccess.strictest_of_outdone rfl hout]

end Way

section Stored

variable {α : Type} [DecidableEq α] [TagEnum α] {width : Nat}

/-- Whatever the case of letters in the values of a way, the parser runs on an edge and leaves there
    what is read alike. -/
def TagParser.IgnoresCase (q : TagParser) (f : EnumField α) (s : EdgeStorage width) (edge : Nat)
    (flags : RelationFlags) (way : Way) : Prop :=
  ∃ value : Bool → α, ∀ way', way.SameButCase way' →
    ∃ s', q.run edge way' flags s = .ok () s' ∧
      ∀ reverse, f.get s' edge reverse = .ok (value reverse)

variable {q : TagParser} {type : String} {f : EnumField α} {ofWay : Way → α} {d : Layout.Draft}
  {s : EdgeStorage width} {edge : Nat}
  (hq : q = .ofField type f.field fun way _ =>
    if ofWay way = TagEnum.missing then [] else [f.assign false (ofWay way)])
  (hf : f.field ∈ d.freeze.fields)
  (hzero : ∀ g ∈ d.freeze.fields, ∀ reverse, g.pattern s edge reverse = .ok 0)

include hq hf hzero

/-- The tag value of a way is read where none was stored before. A field of two directions is left
    without one backward. -/
theorem EnumField.reads_tag (way : Way) (flags : RelationFlags) :
    ∃ s', q.run edge way flags s = .ok () s' ∧ ∀ reverse, f.get s' edge reverse =
      .ok (if reverse && f.field.declaration.twoDirections then TagEnum.missing
        else ofWay way) := by
  have hwidth := d.intsPerEdge_le fun g hg reverse => ⟨0, hzero g hg reverse⟩
  have hfollows : q.Follows { Behaviour.tag ofWay with
      twoDirections := f.field.declaration.twoDirections } f.field := by
    rw [hq]
    exact TagParser.follows_of_stores rfl rfl fun way flags => f.stores_tag ofWay way flags
  obtain ⟨s', hrun, hpattern⟩ :=
    hfollows.pattern_run hf hwidth (hzero f.field hf) way flags
  refine ⟨s', hrun, fun reverse => EnumField.get_of_pattern ?_⟩
  rw [hpattern reverse]
  by_cases hmissing : ofWay way = TagEnum.missing
  · simp [Behaviour.tag, Behaviour.overlay, hmissing]
  · cases reverse <;> cases f.field.declaration.twoDirections <;>
      simp [Behaviour.tag, Behaviour.overlay, hmissing]

theorem TagParser.ignoresCase_iff (way : Way) (flags : RelationFlags) :
    q.IgnoresCase f s edge flags way ↔
      ∀ way', way.SameButCase way' → ofWay way' = ofWay way := by
  have hreads := EnumField.reads_tag hq hf hzero
  constructor
  · rintro ⟨value, hvalue⟩
    have hstored : ∀ way', way.SameButCase way' → ofWay way' = value false := by
      intro way' h
      obtain ⟨s', hrun, hget⟩ := hvalue way' h
      obtain ⟨t, hrun', hget'⟩ := hreads way' flags
      cases hrun.symm.trans hrun'
      exact Except.ok.inj ((hget' false).symm.trans (hget false))
    exact fun way' h => (hstored way' h).trans (hstored way fun _ => rfl).symm
  · intro hsame
    refine ⟨fun reverse => if reverse && f.field.declaration.twoDirections then TagEnum.missing
      else ofWay way, fun way' h => ?_⟩
    rw [← hsame way' h]
    exact hreads way' flags

end Stored

/-- On an edge where nothing was stored, the case of letters does not show in what is read of the
    `moped` tag. It shows in the category of exactly those ways that are links, since the ending of
    a link counts in small letters only; and in the access of exactly those ways where one of the
    further spellings decides, since these count in small letters only. -/
theorem Layout.Draft.casing_exact {width : Nat} {d : Layout.Draft} {m : EnumField Moped}
    {c : EnumField RoadClass} {a : EnumField RoadAccess} (hm : m.field ∈ d.freeze.fields)
    (hc : c.field ∈ d.freeze.fields) (ha : a.field ∈ d.freeze.fields) {s : EdgeStorage width}
    {edge : Nat} (hzero : ∀ f ∈ d.freeze.fields, ∀ reverse, f.pattern s edge reverse = .ok 0)
    (way : Way) (flags : RelationFlags) :
    (TagParser.moped m).IgnoresCase m s edge flags way ∧
    ((TagParser.roadClass c).IgnoresCase c s edge flags way ↔ ¬ way.LinksRoad) ∧
    ((TagParser.roadAccess a).IgnoresCase a s edge flags way ↔ ¬ way.RestsOnAlias) := by
  refine ⟨?_, ?_, ?_⟩
  · refine (TagParser.ignoresCase_iff rfl hm hzero way flags).2 fun way' h => ?_
    exact TagEnum.find_congr (h.symm (TagEnum.key Moped))
  · exact (TagParser.ignoresCase_iff rfl hc hzero way flags).trans Way.roadClass_ignoresCase_iff
  · exact (TagParser.ignoresCase_iff rfl ha hzero way flags).trans Way.roadAccess_ignoresCase_iff

namespace Layout.Draft

private def mopedTag : Declaration := (Declaration.enum Moped false).toOption.get rfl

private def categoryTag : Declaration := (Declaration.enum RoadClass false).toOption.get rfl

private def accessTag : Declaration := (Declaration.enum RoadAccess false).toOption.get rfl

private def threeTags : Layout.Draft := ⟨[mopedTag, categoryTag, accessTag], by decide⟩

private def mopedField : EnumField Moped := ⟨⟨mopedTag, ⟨0, 0, 3⟩, none⟩, rfl⟩

private def categoryField : EnumField RoadClass := ⟨⟨categoryTag, ⟨0, 3, 5⟩, none⟩, rfl⟩

private def accessField : EnumField RoadAccess := ⟨⟨accessTag, ⟨0, 8, 4⟩, none⟩, rfl⟩

private theorem fields_threeTags :
    threeTags.freeze.fields = [mopedField.field, categoryField.field, accessField.field] := rfl

private theorem unwritten_threeTags (edge : Nat) : ∀ f ∈ threeTags.freeze.fields, ∀ reverse,
    f.pattern (EdgeStorage.zeroed 1 0) edge reverse = .ok 0 :=
  fun _ hf reverse => threeTags.pattern_zeroed (by decide) hf 0 edge reverse

private def barredLink : Way :=
  .ofTags 1 [("access", "Permit; No"), ("highway", "Primary_Link"), ("moped", "YES")]

/-- The category of a link depends on the case of letters. Its access does not if it is barred for
    everyone anyhow. -/
theorem casing_exact_barredLink :
    (TagParser.moped mopedField).IgnoresCase mopedField (EdgeStorage.zeroed 1 0) 2
      Layout.createRelationFlags barredLink ∧
    ¬ (TagParser.roadClass categoryField).IgnoresCase categoryField (EdgeStorage.zeroed 1 0) 2
      Layout.createRelationFlags barredLink ∧
    (TagParser.roadAccess accessField).IgnoresCase accessField (EdgeStorage.zeroed 1 0) 2
      Layout.createRelationFlags barredLink := by
  obtain ⟨hmoped, hcategory, haccess⟩ := casing_exact (d := threeTags) (m := mopedField)
    (c := categoryField) (a := accessField) (by simp [fields_threeTags])
    (by simp [fields_threeTags]) (by simp [fields_threeTags]) (unwritten_threeTags 2) barredLink
    Layout.createRelationFlags
  refine ⟨hmoped, fun h => ?_, haccess.2 ?_⟩
  · exact hcategory.1 h ⟨"Primary_Link", "Primary", by decide, by decide, by decide⟩
  · rintro ⟨entries, hentries, -, -, a, -, hless⟩
    have hlist : barredLink.restrictions? = some ["Permit", "No"] := by decide
    obtain rfl := Option.some.inj (hlist.symm.trans hentries)
    have hno : TagEnum.ordinal (TagEnum.find (some "No") : RoadAccess) = 8 := by decide
    have hlt := hless "No" (by simp)
    have hlast : TagEnum.ordinal a < 9 := TagEnum.ordinal_lt a
    omega

private def quietLink : Way := .ofTags 1 [("access", "designated"), ("highway", "primary_link")]

private def loudLink : Way := .ofTags 1 [("access", "Designated"), ("highway", "PRIMARY_LINK")]

/-- A designated link has an access and a category only if it says so in small letters. -/
theorem casing_matters : quietLink.SameButCase loudLink ∧
    (∃ s s', (TagParser.roadClass categoryField).run 0 quietLink Layout.createRelationFlags
        (EdgeStorage.zeroed 1 0) = .ok () s ∧
      (TagParser.roadClass categoryField).run 0 loudLink Layout.createRelationFlags
        (EdgeStorage.zeroed 1 0) = .ok () s' ∧
      categoryField.get s 0 false = .ok .primary ∧ categoryField.get s' 0 false = .ok .missing) ∧
    ∃ s s', (TagParser.roadAccess accessField).run 0 quietLink Layout.createRelationFlags
        (EdgeStorage.zeroed 1 0) = .ok () s ∧
      (TagParser.roadAccess accessField).run 0 loudLink Layout.createRelationFlags
        (EdgeStorage.zeroed 1 0) = .ok () s' ∧
      accessField.get s 0 false = .ok .yes ∧ accessField.get s' 0 false = .ok .missing := by
  refine ⟨Way.sameButCase_ofTags (by decide), ?_, ?_⟩
  · exact ⟨_, _, rfl, rfl, rfl, rfl⟩
  · exact ⟨_, _, rfl, rfl, rfl, rfl⟩

end Layout.Draft

end EdgeAttributes
