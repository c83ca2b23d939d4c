import EdgeAttributes.Access.RuleTable
import EdgeAttributes.Proofs.Text.Split

namespace EdgeAttributes

namespace Way

variable {way : Way} {keys : List String}

/-- The entries of the first of some keys that a way has: its value cut at every semicolon, and each
    part trimmed. A way without any of the keys has no entries. -/
inductive Entries (way : Way) (keys : List String) : List String → Prop
  | first {before behind : List String} {key value : String} {parts : List String}
      (hkeys : keys = before ++ key :: behind) (habsent : ∀ k ∈ before, way.tag k = none)
      (htag : way.tag key = some value) (hne : parts ≠ [])
      (hparts : ∀ part ∈ parts, ';' ∉ part.toList) (hvalue : ";".intercalate parts = value) :
      Entries way keys (parts.map Text.trim)
  | none (habsent : ∀ k ∈ keys, way.tag k = none) : Entries way keys []

theorem firstValue_eq_some_iff {key value : String} :
    way.firstValue keys = some (key, value) ↔ ∃ before behind, keys = before ++ key :: behind ∧
      way.tag key = some value ∧ ∀ k ∈ before, way.tag k = none := by
  rw [firstValue, List.findSome?_eq_some_iff]
  constructor
  · rintro ⟨before, found, behind, hkeys, hfound, habsent⟩
    obtain ⟨v, htag, hpair⟩ := Option.map_eq_some_iff.1 hfound
    cases hpair
    exact ⟨before, behind, hkeys, htag, fun k hk => Option.map_eq_none_iff.1 (habsent k hk)⟩
  · rintro ⟨before, behind, hkeys, htag, habsent⟩
    exact ⟨before, key, behind, hkeys, by rw [htag]; rfl,
      fun k hk => Option.map_eq_none_iff.2 (habsent k hk)⟩

theorem firstValue_eq_none_iff : way.firstValue keys = none ↔ ∀ k ∈ keys, way.tag k = none := by
  simp [firstValue]

/-- A way has one list of entries, and it is found by looking for the first key. -/
theorem entries_iff {entries : List String} : way.Entries keys entries ↔
    ((way.firstValue keys).elim [] fun found => RuleTable.entriesOf found.2) = entries := by
  constructor
  · intro h
    cases h with
    | first hkeys habsent htag hne hparts hvalue =>
      rw [firstValue_eq_some_iff.2 ⟨_, _, hkeys, htag, habsent⟩, Option.elim_some,
        RuleTable.entriesOf, Text.split_eq_iff.2 ⟨hne, hparts, hvalue⟩]
    | none habsent => rw [firstValue_eq_none_iff.2 habsent, Option.elim_none]
  · rintro rfl
    cases hfirst : way.firstValue keys with
    | none => exact .none (firstValue_eq_none_iff.1 hfirst)
    | some found =>
      obtain ⟨before, behind, hkeys, htag, habsent⟩ := firstValue_eq_some_iff.1 hfirst
      obtain ⟨hne, hparts, hvalue⟩ := Text.split_eq_iff.1 (rfl : Text.split ';' found.2 = _)
      exact .first hkeys habsent htag hne hparts hvalue

/-- A way on which vehicles are carried. -/
def Carries (way : Way) : Prop :=
  way.tag "route" = some "ferry" ∨ way.tag "route" = some "shuttle_train"

theorem isFerry_iff : RuleTable.isFerry way = true ↔ way.Carries := by
  rw [RuleTable.isFerry, hasTagIn, Carries]
  cases way.tag "route" <;> simp

end Way

namespace RuleTable

variable {r : RuleTable} {way : Way} {entries : List String}

/-- What bars a way, whatever else its tags say. Fords do so only for tables that ask for it. -/
inductive Bars (r : RuleTable) (way : Way) : Prop
  | impassable (h : way.tag "impassable" = some "yes")
  | status (h : way.tag "status" = some "impassable")
  | emergency (h : way.tag "highway" = some "service")
      (hservice : way.tag "service" = some "emergency_access")
  | fordRoad (hfords : r.blockFords = true) (h : way.tag "highway" = some "ford")
  | ford {value : String} (hfords : r.blockFords = true) (h : way.tag "ford" = some value)
      (hne : value ≠ "no")

theorem isBarred_iff : r.isBarred way = true ↔ r.Bars way := by
  simp only [isBarred, Way.hasTag, Bool.or_eq_true, Bool.and_eq_true, beq_iff_eq,
    Option.any_eq_true, bne_iff_ne]
  constructor
  · rintro (((h | h) | ⟨h, hservice⟩) | ⟨hfords, h | ⟨value, h, hne⟩⟩)
    · exact .impassable h
    · exact .status h
    · exact .emergency h hservice
    · exact .fordRoad hfords h
    · exact .ford hfords h hne
  · rintro (h | h | ⟨h, hservice⟩ | ⟨hfords, h⟩ | ⟨hfords, h, hne⟩)
    · exact .inl (.inl (.inl h))
    · exact .inl (.inl (.inr h))
    · exact .inl (.inr ⟨h, hservice⟩)
    · exact .inr ⟨hfords, .inl h⟩
    · exact .inr ⟨hfords, .inr ⟨_, h, hne⟩⟩

/-- An entry that is neither restricted nor intended. -/
def Unknown (r : RuleTable) (entry : String) : Prop :=
  entry ∉ r.restricted ∧ entry ∉ r.intended

/-- The first entry that is known is intended, and not restricted as well. -/
def Permits (r : RuleTable) (entries : List String) : Prop :=
  ∃ before entry behind, entries = before ++ entry :: behind ∧ (∀ e ∈ before, r.Unknown e) ∧
    entry ∈ r.intended ∧ entry ∉ r.restricted

/-- The first entry that is known is restricted. -/
def Forbids (r : RuleTable) (entries : List String) : Prop :=
  ∃ before entry behind, entries = before ++ entry :: behind ∧ (∀ e ∈ before, r.Unknown e) ∧
    entry ∈ r.restricted

theorem verdict_append {before : List String} (hbefore : ∀ e ∈ before, r.Unknown e)
    (entries : List String) : r.verdict (before ++ entries) = r.verdict entries := by
  induction before with
  | nil => rfl
  | cons e before ih =>
    obtain ⟨⟨hrestricted, hintended⟩, hbefore⟩ := List.forall_mem_cons.1 hbefore
    rw [List.cons_append, verdict, if_neg (by simpa using hrestricted),
      if_neg (by simpa using hintended), ih hbefore]

theorem verdict_of_permits (h : r.Permits entries) : r.verdict entries = .allow := by
  obtain ⟨before, entry, behind, rfl, hbefore, hintended, hrestricted⟩ := h
  rw [verdict_append hbefore, verdict, if_neg (by simpa using hrestricted),
    if_pos (by simpa using hintended)]

theorem verdict_of_forbids (h : r.Forbids entries) : r.verdict entries = .deny := by
  obtain ⟨before, entry, behind, rfl, hbefore, hrestricted⟩ := h
  rw [verdict_append hbefore, verdict, if_pos (by simpa using hrestricted)]

theorem verdict_of_unknown (h : ∀ e ∈ entries, r.Unknown e) :
    r.verdict entries = .undecided := by
  have happend := verdict_append h []
  rwa [List.append_nil] at happend

/-- Entries permit, forbid or say nothing. -/
theorem permits_or_forbids_or_unknown (r : RuleTable) (entries : List String) :
    r.Permits entries ∨ r.Forbids entries ∨ ∀ e ∈ entries, r.Unknown e := by
  induction entries with
  | nil => simp
  | cons e entries ih =>
    by_cases hrestricted : e ∈ r.restricted
    · exact .inr (.inl ⟨[], e, entries, rfl, by simp, hrestricted⟩)
    · by_cases hintended : e ∈ r.intended
      · exact .inl ⟨[], e, entries, rfl, by simp, hintended, hrestricted⟩
      · have hunknown : r.Unknown e := ⟨hrestricted, hintended⟩
        obtain ⟨before, entry, behind, rfl, hbefore, h⟩ |
          ⟨before, entry, behind, rfl, hbefore, h⟩ | hall := ih
        · exact .inl ⟨e :: before, entry, behind, rfl,
            List.forall_mem_cons.2 ⟨hunknown, hbefore⟩, h⟩
        · exact .inr (.inl ⟨e :: before, entry, behind, rfl,
            List.forall_mem_cons.2 ⟨hunknown, hbefore⟩, h⟩)
        · exact .inr (.inr (List.forall_mem_cons.2 ⟨hunknown, hall⟩))

theorem restriction_eq_verdict (h : way.Entries r.restrictionKeys entries) :
    r.restriction way = r.verdict entries := by
  rw [← Way.entries_iff.1 h, restriction]
  cases way.firstValue r.restrictionKeys <;> rfl

/-- What makes a way usable on which no vehicles are carried: it is a road without a barrier, and
    its entries permit it, or they say nothing and its category is usable by default. -/
structure Admits (r : RuleTable) (way : Way) : Prop where
  open_road : ¬ r.Bars way
  allowed : ∃ highway entries, way.tag "highway" = some highway ∧
    way.Entries r.restrictionKeys entries ∧
    (r.Permits entries ∨ (∀ e ∈ entries, r.Unknown e) ∧ highway ∈ r.highways)

theorem decide_of_carries (h : way.Carries) : r.decide way = .special := by
  rw [decide, if_pos (Way.isFerry_iff.2 h)]

theorem decide_of_admits (hcarries : ¬ way.Carries) (h : r.Admits way) :
    r.decide way = .usable := by
  obtain ⟨highway, entries, hroad, hentries, hallowed⟩ := h.allowed
  have hbarred : r.isBarred way ≠ true := mt isBarred_iff.1 h.open_road
  rw [decide, if_neg (mt Way.isFerry_iff.1 hcarries), restriction_eq_verdict hentries, hroad]
  obtain hpermits | ⟨hunknown, hhighway⟩ := hallowed
  · simp [verdict_of_permits hpermits, hbarred]
  · simp [verdict_of_unknown hunknown, hbarred, allowsHighway, hhighway]

theorem decide_of_not_admits (hcarries : ¬ way.Carries) (h : ¬ r.Admits way) :
    r.decide way = .skip := by
  obtain ⟨entries, hentries⟩ : ∃ entries, way.Entries r.restrictionKeys entries :=
    ⟨_, Way.entries_iff.2 rfl⟩
  rw [decide, if_neg (mt Way.isFerry_iff.1 hcarries), restriction_eq_verdict hentries]
  by_cases hbars : r.Bars way
  · rw [if_pos (by simp [isBarred_iff.2 hbars])]
  · have hbarred : r.isBarred way ≠ true := mt isBarred_iff.1 hbars
    obtain hpermits | hforbids | hunknown := r.permits_or_forbids_or_unknown entries
    · cases hroad : way.tag "highway" with
      | none => simp
      | some highway => exact absurd ⟨hbars, highway, entries, hroad, hentries, .inl hpermits⟩ h
    · rw [if_pos (by simp [verdict_of_forbids hforbids])]
    · rw [verdict_of_unknown hunknown]
      cases hroad : way.tag "highway" with
      | none => simp
      | some highway =>
        have hhighway : highway ∉ r.highways := fun hmem =>
          h ⟨hbars, highway, entries, hroad, hentries, .inr ⟨hunknown, hmem⟩⟩
        simp [allowsHighway, hhighway]

/-- The decisions of a rule table are those of the documented order, for every table and every way.
    Only a way that carries vehicles is special, whatever its other tags. Any other way is usable if
    and only if it is a road without a barrier, and, of the entries of its most specific
    restriction, the first that is restricted or intended is intended only, or none is and the
    category of the road is usable by default. All others are skipped. -/
theorem decide_precedence (r : RuleTable) (way : Way) :
    (r.decide way = .special ↔ way.Carries) ∧
    (r.decide way = .usable ↔ ¬ way.Carries ∧ r.Admits way) ∧
    (r.decide way = .skip ↔ ¬ way.Carries ∧ ¬ r.Admits way) := by
  by_cases hcarries : way.Carries
  · simp [decide_of_carries hcarries, hcarries]
  · by_cases hadmits : r.Admits way
    · simp [decide_of_admits hcarries hadmits, hcarries, hadmits]
    · simp [decide_of_not_admits hcarries hadmits, hcarries, hadmits]

-- An entry that is both restricted and intended forbids, though a permission comes behind it.
example :
    let r := ((RuleTable.ofKeys ["motorcar", "access"]).withIntended ["private"]).withHighways
      ["road"]
    r.decide (.ofTags 1 [("highway", "road"), ("access", "fine; private;yes")]) = .skip ∧
    r.decide (.ofTags 1 [("highway", "path"), ("access", "no"), ("motorcar", "fine; yes")]) =
      .usable := by
  decide

end RuleTable

end EdgeAttributes
