import EdgeAttributes.Proofs.Access.Precedence

namespace EdgeAttributes

/-- To skip a way is less than to use it. A special decision stands apart: it compares to itself and
    to no other. -/
structure Decision.AtMost (d d' : Decision) : Prop where
  usable : d = usable → d' = usable
  special : d = special ↔ d' = special

namespace Decision.AtMost

theorem refl (d : Decision) : d.AtMost d := ⟨id, Iff.rfl⟩

theorem skip_usable : Decision.skip.AtMost .usable := ⟨nofun, by simp⟩

theorem antisymm {d d' : Decision} (h : d.AtMost d') (h' : d'.AtMost d) : d = d' := by
  cases d with
  | usable => exact (h.usable rfl).symm
  | special => exact (h.special.1 rfl).symm
  | skip =>
    cases d' with
    | usable => exact h'.usable rfl
    | special => exact h.special.2 rfl
    | skip => rfl

end Decision.AtMost

namespace RuleTable

variable {r r' : RuleTable}

/-- A table is at most as strict as another about the same keys: it restricts nothing else, intends
    whatever the other intends and does not restrict as well, and has all of the other's road
    categories. Fords bar a way only if they do so for the other, too. -/
structure Loosens (r' r : RuleTable) : Prop where
  keys : r'.restrictionKeys = r.restrictionKeys
  restricted : ∀ value ∈ r'.restricted, value ∈ r.restricted
  intended : ∀ value ∈ r.intended, value ∉ r.restricted → value ∈ r'.intended
  highways : ∀ highway ∈ r.highways, highway ∈ r'.highways
  blockFords : r'.blockFords = true → r.blockFords = true

theorem withHighways_loosens (r : RuleTable) (highways : List String) :
    (r.withHighways highways).Loosens r :=
  ⟨rfl, fun _ h => h, fun _ h _ => h, fun _ => List.mem_append_left _, id⟩

theorem withIntended_loosens (r : RuleTable) (values : List String) :
    (r.withIntended values).Loosens r :=
  ⟨rfl, fun _ h => h, fun _ h _ => List.mem_append_left _ h, fun _ h => h, id⟩

theorem loosens_withRestricted (r : RuleTable) (values : List String) :
    r.Loosens (r.withRestricted values) :=
  ⟨rfl, fun _ => List.mem_append_left _, fun _ h _ => h, fun _ h => h, id⟩

theorem loosens_withBlockFords (r : RuleTable) : r.Loosens (r.withBlockFords true) :=
  ⟨rfl, fun _ h => h, fun _ h _ => h, fun _ h => h, fun _ => rfl⟩

/-- The table without the intended values that it restricts as well. -/
def withoutContradictions (r : RuleTable) : RuleTable :=
  { r with intended := r.intended.filter (· ∉ r.restricted) }

theorem withoutContradictions_loosens (r : RuleTable) : r.withoutContradictions.Loosens r :=
  ⟨rfl, fun _ h => h, fun _ h hnot => List.mem_filter.2 ⟨h, decide_eq_true hnot⟩, fun _ h => h, id⟩

theorem loosens_withoutContradictions (r : RuleTable) : r.Loosens r.withoutContradictions :=
  ⟨rfl, fun _ h => h, fun _ h _ => List.mem_of_mem_filter h, fun _ h => h, id⟩

namespace Loosens

/-- What is permitted stays permitted, though another entry may decide now: one before the first
    that the stricter table knows. -/
theorem permits (h : r'.Loosens r) {entries : List String} (hpermits : r.Permits entries) :
    r'.Permits entries := by
  obtain ⟨before, entry, behind, rfl, hbefore, hintended, hrestricted⟩ := hpermits
  induction before with
  | nil =>
    exact ⟨[], entry, behind, rfl, by simp, h.intended entry hintended hrestricted,
      mt (h.restricted entry) hrestricted⟩
  | cons e before ih =>
    obtain ⟨⟨hunrestricted, -⟩, hbefore⟩ := List.forall_mem_cons.1 hbefore
    have hfree : e ∉ r'.restricted := mt (h.restricted e) hunrestricted
    by_cases hknown : e ∈ r'.intended
    · exact ⟨[], e, before ++ entry :: behind, rfl, by simp, hknown, hfree⟩
    · obtain ⟨before', entry', behind', hentries, hbefore', hallowed⟩ := ih hbefore
      refine ⟨e :: before', entry', behind', ?_, ?_, hallowed⟩
      · rw [List.cons_append, hentries, List.cons_append]
      · exact List.forall_mem_cons.2 ⟨⟨hfree, hknown⟩, hbefore'⟩

theorem permits_or_unknown (h : r'.Loosens r) {entries : List String}
    (hunknown : ∀ e ∈ entries, r.Unknown e) :
    r'.Permits entries ∨ ∀ e ∈ entries, r'.Unknown e := by
  obtain hpermits | ⟨before, entry, behind, rfl, -, hforbidden⟩ | hall :=
    r'.permits_or_forbids_or_unknown entries
  · exact .inl hpermits
  · have hentry := hunknown entry (List.mem_append_right _ List.mem_cons_self)
    exact absurd (h.restricted entry hforbidden) hentry.1
  · exact .inr hall

theorem bars (h : r'.Loosens r) {way : Way} (hbars : r'.Bars way) : r.Bars way := by
  cases hbars with
  | impassable htag => exact .impassable htag
  | status htag => exact .status htag
  | emergency htag hservice => exact .emergency htag hservice
  | fordRoad hfords htag => exact .fordRoad (h.blockFords hfords) htag
  | ford hfords htag hne => exact .ford (h.blockFords hfords) htag hne

theorem admits (h : r'.Loosens r) {way : Way} (hadmits : r.Admits way) : r'.Admits way := by
  obtain ⟨highway, entries, hroad, hentries, hallowed⟩ := hadmits.allowed
  refine ⟨mt h.bars hadmits.open_road, highway, entries, hroad, h.keys ▸ hentries, ?_⟩
  obtain hpermits | ⟨hunknown, hhighway⟩ := hallowed
  · exact .inl (h.permits hpermits)
  · exact (h.permits_or_unknown hunknown).imp_right fun hall => ⟨hall, h.highways _ hhighway⟩

/-- A looser table decides no way lower, and has the same special ways. -/
theorem decide_atMost (h : r'.Loosens r) (way : Way) : (r.decide way).AtMost (r'.decide way) := by
  by_cases hcarries : way.Carries
  · rw [decide_of_carries hcarries, decide_of_carries hcarries]
    exact .refl _
  · by_cases hadmits : r.Admits way
    · rw [decide_of_admits hcarries hadmits, decide_of_admits hcarries (h.admits hadmits)]
      exact .refl _
    · rw [decide_of_not_admits hcarries hadmits]
      by_cases hadmits' : r'.Admits way
      · rw [decide_of_admits hcarries hadmits']
        exact .skip_usable
      · rw [decide_of_not_admits hcarries hadmits']
        exact .refl _

end Loosens

/-- Rule tables are monotone, for every table and every way. More road categories or more intended
    values never make a way skipped that was usable; more restricted values, or fords that bar,
    never make one usable that was skipped; and no such change makes a way special or a special way
    anything else. A restricted value that comes first among the known entries skips a way, even if
    it is intended as well: to intend it or not changes no decision. -/
theorem decide_monotone (r : RuleTable) (way : Way) :
    (∀ highways, (r.decide way).AtMost ((r.withHighways highways).decide way)) ∧
    (∀ values, (r.decide way).AtMost ((r.withIntended values).decide way)) ∧
    (∀ values, ((r.withRestricted values).decide way).AtMost (r.decide way)) ∧
    ((r.withBlockFords true).decide way).AtMost (r.decide way) ∧
    (∀ before value behind, way.Entries r.restrictionKeys (before ++ value :: behind) →
      (∀ e ∈ before, r.Unknown e) → value ∈ r.restricted → ¬ way.Carries →
      r.decide way = .skip) ∧
    r.withoutContradictions.decide way = r.decide way := by
  refine ⟨fun highways => (r.withHighways_loosens highways).decide_atMost way,
    fun values => (r.withIntended_loosens values).decide_atMost way,
    fun values => (r.loosens_withRestricted values).decide_atMost way,
    r.loosens_withBlockFords.decide_atMost way, ?_, ?_⟩
  · intro before value behind hentries hbefore hrestricted hcarries
    have hforbids : r.Forbids (before ++ value :: behind) :=
      ⟨before, value, behind, rfl, hbefore, hrestricted⟩
    have hdeny : r.restriction way = .deny :=
      (restriction_eq_verdict hentries).trans (verdict_of_forbids hforbids)
    rw [decide, if_neg (mt Way.isFerry_iff.1 hcarries), if_pos (by simp [hdeny])]
  · exact (r.loosens_withoutContradictions.decide_atMost way).antisymm
      (r.withoutContradictions_loosens.decide_atMost way)

-- An entry that is intended now decides before one that forbids, and the other way round.
example :
    let r := RuleTable.ofKeys ["access"]
    let way := Way.ofTags 1 [("highway", "path"), ("access", "locals;no;yes")]
    r.decide way = .skip ∧ (r.withIntended ["locals"]).decide way = .usable ∧
    ((r.withIntended ["locals"]).withRestricted ["locals"]).decide way = .skip := by
  decide

end RuleTable

end EdgeAttributes
