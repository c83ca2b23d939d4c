import EdgeAttributes.Pipeline
import EdgeAttributes.Proofs.Field.Integers
import EdgeAttributes.Proofs.Layout.Cells

namespace EdgeAttributes

-- Powers keep the meaning that they have without any further library.
attribute [local instance (high)] instPowNat

variable {width : Nat}

/-- What the parser of a value stores and decides, in terms that no layout enters: patterns for
    directions, the later ones over the earlier ones. -/
structure Behaviour where
  twoDirections : Bool
  patterns : Way → RelationFlags → List (Bool × UInt32)
  decision : Way → Option Decision

/-- The pattern of a direction after patterns were stored over an old one. A value of one direction
    keeps one pattern for both. -/
def Behaviour.overlay (b : Behaviour) (reverse : Bool) : List (Bool × UInt32) → UInt32 → UInt32
  | [], old => old
  | (direction, pattern) :: rest, old =>
    b.overlay reverse rest
      (if (direction && b.twoDirections) = (reverse && b.twoDirections) then pattern else old)

/-- The patterns of all values by name, edge and direction, wherever their bits lie. -/
abbrev Contents := String → Nat → Bool → UInt32

namespace Contents

/-- Nothing stored yet. -/
def zero : Contents := fun _ _ _ => 0

/-- Contents after patterns were stored for one value on one edge. -/
def overlay (b : Behaviour) (name : String) (edge : Nat) (patterns : List (Bool × UInt32))
    (contents : Contents) : Contents := fun other otherEdge reverse =>
  if edge = otherEdge ∧ other = name then
    b.overlay reverse patterns (contents other otherEdge reverse)
  else contents other otherEdge reverse

/-- Contents after some of the values were filled for a way, each by its own behaviour. -/
def fill (behaviour : String → Behaviour) (names : List String) (edge : Nat) (way : Way)
    (flags : RelationFlags) (contents : Contents) : Contents := fun other otherEdge reverse =>
  if edge = otherEdge ∧ other ∈ names then
    (behaviour other).overlay reverse ((behaviour other).patterns way flags)
      (contents other otherEdge reverse)
  else contents other otherEdge reverse

theorem fill_nil (behaviour : String → Behaviour) (edge : Nat) (way : Way) (flags : RelationFlags)
    (contents : Contents) : contents.fill behaviour [] edge way flags = contents := by
  funext other otherEdge reverse
  simp [fill]

/-- A value is filled by its own behaviour only, so one that is filled first does not show in the
    others. -/
theorem fill_cons (behaviour : String → Behaviour) {name : String} {names : List String}
    (hname : name ∉ names) (edge : Nat) (way : Way) (flags : RelationFlags) (contents : Contents) :
    contents.fill behaviour (name :: names) edge way flags =
      (contents.overlay (behaviour name) name edge ((behaviour name).patterns way flags)).fill
        behaviour names edge way flags := by
  funext other otherEdge reverse
  simp only [fill, overlay, List.mem_cons]
  by_cases hedge : edge = otherEdge
  · by_cases heq : other = name
    · subst heq
      simp [hedge, hname]
    · simp [hedge, heq]
  · simp [hedge]

end Contents

/-- Store patterns in order. -/
def Field.setPatterns (f : Field) (edge : Nat) (patterns : List (Bool × UInt32)) :
    Edit width Unit :=
  patterns.forM fun p => f.setPattern edge p.1 p.2

/-- A parser fills a field as a behaviour says, whatever storage holds. -/
structure TagParser.Follows (q : TagParser) (b : Behaviour) (f : Field) : Prop where
  twoDirections : f.declaration.twoDirections = b.twoDirections
  decision : q.decision = b.decision
  run : ∀ (width edge : Nat) (way : Way) (flags : RelationFlags),
    (q.run edge way flags : Edit width Unit) = f.setPatterns edge (b.patterns way flags)
  fits : ∀ way flags, ∀ p ∈ b.patterns way flags, p.2.toNat < 2 ^ f.declaration.bits

/-- An assignment stores a pattern in a field, whatever storage holds. -/
structure Assignment.Stores (f : Field) (a : Assignment) (p : Bool × UInt32) : Prop where
  apply_eq : ∀ width edge, (a.apply edge : Edit width Unit) = f.setPattern edge p.1 p.2
  fits : p.2.toNat < 2 ^ f.declaration.bits

theorem BooleanField.stores_flag (f : BooleanField) (reverse value : Bool) :
    Assignment.Stores f.field (.flag f reverse value) (reverse, if value then 1 else 0) where
  apply_eq _ _ := rfl
  fits := by
    rw [← f.encode_toInt]
    exact f.field.declaration.encode_lt (f.toInt_inRange value)

theorem EnumField.stores_assign {α : Type} [DecidableEq α] [TagEnum α] (f : EnumField α)
    (reverse : Bool) (value : α) : Assignment.Stores f.field (f.assign reverse value)
      (reverse, UInt32.ofNat (TagEnum.ordinal value)) where
  apply_eq _ _ := rfl
  fits := by
    rw [← f.encode_ordinal]
    exact f.field.declaration.encode_lt (f.ordinal_inRange value)

section Stores

variable {f : Field} {as : List Assignment} {ps : List (Bool × UInt32)}

/-- Assignments that store patterns one by one have the effect of the patterns. -/
private theorem Assignment.applyAll_eq_setPatterns
    (h : List.Forall₂ (Assignment.Stores f) as ps) (edge : Nat) :
    (Assignment.applyAll edge as : Edit width Unit) = f.setPatterns edge ps := by
  induction h with
  | nil => rfl
  | @cons a p as ps ha _ ih =>
    change (a.apply edge >>= fun _ => Assignment.applyAll edge as) =
      (f.setPattern edge p.1 p.2 >>= fun _ => f.setPatterns edge ps)
    rw [ha.apply_eq, ih]

private theorem Assignment.fits_of_stores (h : List.Forall₂ (Assignment.Stores f) as ps) :
    ∀ p ∈ ps, p.2.toNat < 2 ^ f.declaration.bits := by
  induction h with
  | nil => simp
  | cons ha _ ih => exact List.forall_mem_cons.2 ⟨ha.fits, ih⟩

theorem TagParser.follows_of_stores {type : String} {writes : List String}
    {assignments : Way → RelationFlags → List Assignment} {decision : Way → Option Decision}
    {b : Behaviour} (htwo : f.declaration.twoDirections = b.twoDirections)
    (hdecision : decision = b.decision)
    (hstores : ∀ way flags,
      List.Forall₂ (Assignment.Stores f) (assignments way flags) (b.patterns way flags)) :
    (TagParser.ofAssignments type writes assignments decision).Follows b f where
  twoDirections := htwo
  decision := hdecision
  run _ edge way flags := Assignment.applyAll_eq_setPatterns (hstores way flags) edge
  fits way flags := Assignment.fits_of_stores (hstores way flags)

end Stores

namespace Layout.Draft

variable {d : Layout.Draft} {f : Field}

/-- Storage of a layout holds contents if every value of the layout reads as they say. -/
def Reads (d : Layout.Draft) (s : EdgeStorage width) (contents : Contents) : Prop :=
  ∀ f ∈ d.freeze.fields, ∀ edge reverse, f.pattern s edge reverse =
    .ok (contents f.name edge reverse)

theorem reads_zeroed (hwidth : d.freeze.intsPerEdge ≤ width) (edges : Nat) :
    d.Reads (EdgeStorage.zeroed width edges) Contents.zero :=
  fun _ hf edge reverse => d.pattern_zeroed hwidth hf edges edge reverse

/-- Storage that is wide enough has contents, whatever was written there. -/
theorem exists_reads (hwidth : d.freeze.intsPerEdge ≤ width) (s : EdgeStorage width) :
    ∃ contents, d.Reads s contents := by
  have hread : ∀ f ∈ d.freeze.fields, ∃ patterns : Nat → Bool → UInt32, ∀ edge reverse,
      f.pattern s edge reverse = .ok (patterns edge reverse) := fun f hf =>
    ⟨_, fun edge reverse => f.pattern_eq s edge reverse
      (Nat.lt_of_lt_of_le (d.slot_index_lt hf reverse) hwidth)⟩
  have hnamed : ∀ name, ∃ patterns : Nat → Bool → UInt32, ∀ f ∈ d.freeze.fields, f.name = name →
      ∀ edge reverse, f.pattern s edge reverse = .ok (patterns edge reverse) := by
    intro name
    by_cases hname : ∃ f ∈ d.freeze.fields, f.name = name
    · obtain ⟨f, hf, rfl⟩ := hname
      obtain ⟨patterns, hpatterns⟩ := hread f hf
      refine ⟨patterns, fun g hg hname => ?_⟩
      rw [d.eq_of_name_eq hg hf hname]
      exact hpatterns
    · exact ⟨fun _ _ => 0, fun f hf heq => absurd ⟨f, hf, heq⟩ hname⟩
  choose contents hcontents using hnamed
  exact ⟨contents, fun f hf => hcontents f.name f hf rfl⟩

/-- Contents matter under the names of the layout only. -/
theorem Reads.congr {s : EdgeStorage width} {contents contents' : Contents}
    (h : d.Reads s contents)
    (heq : ∀ f ∈ d.freeze.fields, contents f.name = contents' f.name) : d.Reads s contents' := by
  intro f hf edge reverse
  rw [h f hf edge reverse, heq f hf]

private theorem Reads.setPattern (hwidth : d.freeze.intsPerEdge ≤ width)
    (hf : f ∈ d.freeze.fields) {b : Behaviour} (hb : f.declaration.twoDirections = b.twoDirections)
    (edge : Nat) (direction : Bool) {pattern : UInt32}
    (hfits : pattern.toNat < 2 ^ f.declaration.bits) {s : EdgeStorage width} {contents : Contents}
    (hreads : d.Reads s contents) :
    ∃ s', f.setPattern edge direction pattern s = .ok () s' ∧
      d.Reads s' (contents.overlay b f.name edge [(direction, pattern)]) := by
  obtain ⟨s', hset, hstored⟩ := d.pattern_setPattern hwidth hf edge direction hfits s
  refine ⟨s', hset, fun g hg other reverse => ?_⟩
  rw [hstored g hg other reverse, hreads g hg other reverse, Contents.overlay]
  by_cases hcell : edge = other ∧ g.name = f.name
  · obtain ⟨rfl, hname⟩ := hcell
    obtain rfl : g = f := d.eq_of_name_eq hg hf hname
    simp only [Field.address, Address.mk.injEq, true_and, and_true, if_true, hb,
      Behaviour.overlay]
    split <;> rfl
  · have haddress : f.address edge direction ≠ g.address other reverse := fun heq =>
      hcell ⟨congrArg Address.edge heq, (congrArg Address.name heq).symm⟩
    rw [if_neg haddress, if_neg hcell]

/-- Storing the patterns of one value overlays that value on that edge, and leaves all others. -/
theorem Reads.setPatterns (hwidth : d.freeze.intsPerEdge ≤ width) (hf : f ∈ d.freeze.fields)
    {b : Behaviour} (hb : f.declaration.twoDirections = b.twoDirections) (edge : Nat)
    {patterns : List (Bool × UInt32)}
    (hfits : ∀ p ∈ patterns, p.2.toNat < 2 ^ f.declaration.bits) {s : EdgeStorage width}
    {contents : Contents} (hreads : d.Reads s contents) :
    ∃ s', f.setPatterns edge patterns s = .ok () s' ∧
      d.Reads s' (contents.overlay b f.name edge patterns) := by
  induction patterns generalizing s contents with
  | nil =>
    refine ⟨s, rfl, hreads.congr fun g _ => ?_⟩
    funext other reverse
    exact (ite_self _).symm
  | cons p patterns ih =>
    obtain ⟨direction, pattern⟩ := p
    obtain ⟨s₁, hset, hreads₁⟩ := hreads.setPattern hwidth hf hb edge direction
      (hfits _ List.mem_cons_self)
    obtain ⟨s', hrest, hreads'⟩ := ih (fun p hp => hfits p (List.mem_cons_of_mem _ hp)) hreads₁
    refine ⟨s', ?_, hreads'.congr fun g _ => ?_⟩
    · exact Edit.bind_eq_ok_iff.2 ⟨(), s₁, hset, hrest⟩
    · funext other reverse
      by_cases hcell : edge = other ∧ g.name = f.name
      · simp only [Contents.overlay, if_pos hcell, Behaviour.overlay]
      · simp only [Contents.overlay, if_neg hcell]

/-- Parsers of distinct values fill all of them, and nothing else, whatever their order. -/
theorem Reads.runParsers (hwidth : d.freeze.intsPerEdge ≤ width) {behaviour : String → Behaviour}
    {names : List String} {parsers : List TagParser}
    (hparsers : List.Forall₂ (fun name q => ∃ f ∈ d.freeze.fields, f.name = name ∧
      q.Follows (behaviour name) f) names parsers) (hnodup : names.Nodup) (edge : Nat) (way : Way)
    (flags : RelationFlags) {s : EdgeStorage width} {contents : Contents}
    (hreads : d.Reads s contents) :
    ∃ s', (parsers.forM fun q => q.run edge way flags) s = .ok () s' ∧
      d.Reads s' (contents.fill behaviour names edge way flags) := by
  induction hparsers generalizing s contents with
  | nil =>
    rw [Contents.fill_nil]
    exact ⟨s, rfl, hreads⟩
  | @cons name q names parsers hfollows _ ih =>
    obtain ⟨f, hf, rfl, hfollows⟩ := hfollows
    obtain ⟨hname, hnodup⟩ := List.nodup_cons.1 hnodup
    obtain ⟨s₁, hset, hreads₁⟩ := hreads.setPatterns hwidth hf hfollows.twoDirections edge
      (hfollows.fits way flags)
    obtain ⟨s', hrest, hreads'⟩ := ih hnodup hreads₁
    rw [Contents.fill_cons behaviour hname]
    rw [← hfollows.run width edge way flags] at hset
    exact ⟨s', Edit.bind_eq_ok_iff.2 ⟨(), s₁, hset, hrest⟩, hreads'⟩

end Layout.Draft

/-- A parser that follows a behaviour fills its value on an edge where that was zero. -/
theorem TagParser.Follows.pattern_run {q : TagParser} {b : Behaviour} {f : Field}
    (h : q.Follows b f) {d : Layout.Draft} (hf : f ∈ d.freeze.fields)
    (hwidth : d.freeze.intsPerEdge ≤ width) {s : EdgeStorage width} {edge : Nat}
    (hzero : ∀ reverse, f.pattern s edge reverse = .ok 0) (way : Way) (flags : RelationFlags) :
    ∃ s', q.run edge way flags s = .ok () s' ∧ ∀ reverse, f.pattern s' edge reverse =
      .ok (b.overlay reverse (b.patterns way flags) 0) := by
  obtain ⟨contents, hreads⟩ := d.exists_reads hwidth s
  obtain ⟨s', hset, hreads'⟩ :=
    hreads.setPatterns hwidth hf h.twoDirections edge (h.fits way flags)
  refine ⟨s', (congrFun (h.run width edge way flags) s).trans hset, fun reverse => ?_⟩
  have hold : contents f.name edge reverse = 0 :=
    Except.ok.inj ((hreads f hf edge reverse).symm.trans (hzero reverse))
  rw [hreads' f hf edge reverse, Contents.overlay, if_pos ⟨rfl, rfl⟩, hold]

end EdgeAttributes
