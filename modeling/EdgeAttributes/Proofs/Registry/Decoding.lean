import EdgeAttributes.Proofs.Attribute.TagValues
import EdgeAttributes.Proofs.Layout.Unwritten
import EdgeAttributes.Proofs.Registry.Totality

namespace EdgeAttributes

variable {width : Nat}

namespace Behaviour

/-- A value that was zero is the ordinal of the tag value, whether that is stored or missing. -/
theorem overlay_tag {α : Type} [DecidableEq α] [TagEnum α] (ofWay : Way → α) (way : Way)
    (flags : RelationFlags) (reverse : Bool) :
    (tag ofWay).overlay reverse ((tag ofWay).patterns way flags) 0 =
      UInt32.ofNat (TagEnum.ordinal (ofWay way)) := by
  by_cases hmissing : ofWay way = TagEnum.missing
  · simp [tag, overlay, hmissing]
  · simp [tag, overlay, hmissing]

theorem overlay_roundabout (way : Way) (flags : RelationFlags) (reverse : Bool) :
    roundabout.overlay reverse (roundabout.patterns way flags) 0 =
      if way.isRoundabout then 1 else 0 := by
  cases hmark : way.isRoundabout <;> simp [roundabout, overlay, hmark]

end Behaviour

/-- An ordinal that was stored reads as its tag value. -/
theorem EnumField.get_of_pattern {α : Type} [DecidableEq α] [TagEnum α] {f : EnumField α}
    {s : EdgeStorage width} {edge : Nat} {reverse : Bool} {value : α}
    (h : f.field.pattern s edge reverse = .ok (UInt32.ofNat (TagEnum.ordinal value))) :
    f.get s edge reverse = .ok value := by
  rw [f.get_eq_getInt, Field.getInt, h, ← f.encode_ordinal]
  change Except.ok (TagEnum.ofOrdinal (f.field.decode (f.field.declaration.encode _)).toNat) = _
  rw [f.field.decode_encode (f.ordinal_inRange value), Int.toNat_natCast,
    TagEnum.ofOrdinal_ordinal]

/-- A way that is not skipped fills every value of an edge that was zero. -/
theorem Pipeline.Follows.pattern_handle {p : Pipeline} {behaviour : String → Behaviour}
    {d : Layout.Draft} (h : p.Follows behaviour d) {edge : Nat} {way : Way} {flags : RelationFlags}
    (husable : p.decide way ≠ .skip) {s : EdgeStorage width}
    (hzero : ∀ f ∈ d.freeze.fields, ∀ reverse, f.pattern s edge reverse = .ok 0) :
    ∃ s', p.handle edge way flags s = .ok (p.decide way) s' ∧
      ∀ f ∈ d.freeze.fields, ∀ reverse, f.pattern s' edge reverse =
        .ok ((behaviour f.name).overlay reverse ((behaviour f.name).patterns way flags) 0) := by
  have hwidth := d.intsPerEdge_le fun f hf reverse => ⟨0, hzero f hf reverse⟩
  obtain ⟨contents, hreads⟩ := d.exists_reads hwidth s
  obtain ⟨s', hhandle, hreads'⟩ := h.handle hwidth ⟨edge, way, flags⟩ hreads
  refine ⟨s', hhandle, fun f hf reverse => ?_⟩
  have hold : contents f.name edge reverse = 0 :=
    Except.ok.inj ((hreads f hf edge reverse).symm.trans (hzero f hf reverse))
  rw [hreads' f hf edge reverse, ← hold]
  simp [Contents.step, husable, Decision.isSkip]

namespace Layout

/-- Where a layout has a value for the tag values of `α`, it is found under its own name and reads
    as given in both directions. -/
def TagReads {α : Type} [DecidableEq α] [TagEnum α] (l : Layout) (s : EdgeStorage width)
    (edge : Nat) (value : α) : Prop :=
  TagEnum.key α ∈ l.names → ∃ f, l.enumField α (TagEnum.key α) = .ok f ∧
    ∀ reverse, f.get s edge reverse = .ok value

end Layout

namespace Registry

section Fields

variable {p : Properties} {l : Layout} {s : EdgeStorage width} {edge : Nat} {way : Way}
  {flags : RelationFlags}
  (hdeclared : ∀ f ∈ l.fields, ∃ recipe, builtin.recipe? f.name = some recipe ∧
    recipe.declare p = .ok f.declaration)

include hdeclared

private theorem exists_declared {name : String} {recipe : Recipe}
    (hrecipe : builtin.recipe? name = some recipe) (hname : name ∈ l.names) :
    ∃ f ∈ l.fields, l.field name = .ok f ∧ f.name = name ∧
      recipe.declare p = .ok f.declaration := by
  obtain ⟨f, hf⟩ := Layout.exists_field_eq_ok hname
  obtain ⟨hmem, hkey⟩ := Layout.field_eq_ok hf
  obtain ⟨recipe', hfound, hdecl⟩ := hdeclared f hmem
  rw [hkey] at hfound
  obtain rfl := Option.some.inj (hrecipe.symm.trans hfound)
  exact ⟨f, hmem, hf, hkey, hdecl⟩

variable (hpattern : ∀ f ∈ l.fields, ∀ reverse, f.pattern s edge reverse =
  .ok ((builtinBehaviour p f.name).overlay reverse
    ((builtinBehaviour p f.name).patterns way flags) 0))

include hpattern

/-- A value of ways that is stored as a tag value reads as it is for the way. -/
private theorem tagReads_of_pattern {α : Type} [DecidableEq α] [TagEnum α] (ofWay : Way → α)
    {parser : Layout → Except Error TagParser}
    (hrecipe : builtin.recipe? (TagEnum.key α) = some (.plain (Declaration.enum α false) parser))
    (hbehaviour : builtinBehaviour p (TagEnum.key α) = .tag ofWay) :
    l.TagReads s edge (ofWay way) := by
  intro hname
  obtain ⟨f, hmem, hf, hkey, hdecl⟩ := exists_declared hdeclared hrecipe hname
  obtain ⟨-, -, -, -, hkind⟩ := Declaration.make_eq_ok hdecl
  refine ⟨_, Layout.enumField_of_kind hf hkind, fun reverse => EnumField.get_of_pattern ?_⟩
  rw [hpattern f hmem reverse, hkey, hbehaviour, Behaviour.overlay_tag]

private theorem roundabout_of_pattern (hname : Declaration.roundaboutKey ∈ l.names) :
    ∃ f, l.booleanField Declaration.roundaboutKey = .ok f ∧
      ∀ reverse, f.get s edge reverse = .ok way.isRoundabout := by
  have hrecipe : builtin.recipe? Declaration.roundaboutKey =
      some (.plain Declaration.roundabout TagParser.roundaboutOf) := rfl
  have hbehaviour : builtinBehaviour p Declaration.roundaboutKey = .roundabout := rfl
  obtain ⟨f, hmem, hf, hkey, hdecl⟩ := exists_declared hdeclared hrecipe hname
  replace hdecl : Declaration.boolean Declaration.roundaboutKey false = .ok f.declaration := hdecl
  obtain ⟨-, -, -, -, hkind⟩ := Declaration.make_eq_ok hdecl
  refine ⟨_, Layout.booleanField_of_kind hf hkind, fun reverse => ?_⟩
  rw [BooleanField.get, hpattern f hmem reverse, hkey, hbehaviour, Behaviour.overlay_roundabout]
  cases way.isRoundabout <;> rfl

end Fields

/-- What is read of an edge that was zero is what the tags of its way say, wherever the values lie
    in the layout. A way that is skipped leaves every value at its default. -/
theorem builtin_decodes (p : Properties) {keys : List String} {a : Assembly}
    (h : builtin.assemble keys p = .ok a) (edge : Nat) (way : Way) (flags : RelationFlags)
    {s : EdgeStorage width}
    (hzero : ∀ f ∈ a.layout.fields, ∀ reverse, f.pattern s edge reverse = .ok 0) :
    ∃ s', a.pipeline.handle edge way flags s = .ok (a.pipeline.decide way) s' ∧
      (a.pipeline.decide way = .skip → a.layout.Unwritten s' edge) ∧
      (a.pipeline.decide way ≠ .skip →
        a.layout.TagReads s' edge (TagEnum.find (way.tag "moped") : Moped) ∧
        (∃ c : RoadClass, way.HasRoadClass c ∧ a.layout.TagReads s' edge c) ∧
        (∃ c : RoadAccess, way.HasRoadAccess c ∧ a.layout.TagReads s' edge c) ∧
        (Declaration.roundaboutKey ∈ a.layout.names →
          ∃ f, a.layout.booleanField Declaration.roundaboutKey = .ok f ∧
            ∀ reverse, f.get s' edge reverse = .ok (way.tag "junction" = some "roundabout" ∨
              way.tag "junction" = some "circular"))) := by
  obtain ⟨layout, pipeline⟩ := a
  obtain ⟨d, hlayout, hfollows, -, hdeclared⟩ := assemble_eq_ok (portable_builtinBehaviour p) h
  obtain rfl : layout = d.freeze := hlayout
  by_cases hskip : pipeline.decide way = .skip
  · have hwidth := d.intsPerEdge_le fun f hf reverse => ⟨0, hzero f hf reverse⟩
    obtain ⟨s', hhandle, hsame⟩ := hfollows.exists_handle_eq_ok hwidth edge way flags s
    obtain rfl := hsame hskip
    exact ⟨_, hhandle, fun _ => Layout.unwritten_of_pattern hzero, fun hne => absurd hskip hne⟩
  · obtain ⟨s', hhandle, hpattern⟩ := hfollows.pattern_handle hskip hzero
    refine ⟨s', hhandle, fun heq => absurd heq hskip, fun _ => ⟨?_, ?_, ?_, fun hname => ?_⟩⟩
    · exact tagReads_of_pattern hdeclared hpattern Moped.ofWay rfl rfl
    · refine ⟨RoadClass.ofWay way, Way.hasRoadClass_iff.2 rfl, ?_⟩
      exact tagReads_of_pattern hdeclared hpattern RoadClass.ofWay rfl rfl
    · refine ⟨RoadAccess.ofWay way, Way.hasRoadAccess_iff.2 rfl, ?_⟩
      exact tagReads_of_pattern hdeclared hpattern RoadAccess.ofWay rfl rfl
    · rw [← way.isRoundabout_eq]
      exact roundabout_of_pattern hdeclared hpattern hname

private theorem resolve_carAndTags :
    builtin.resolve ["road_access", "car_access", "roundabout", "moped", "road_class"] =
      .ok ["road_access", "car_access", "roundabout", "moped", "road_class"] := by
  have hroadAccess : builtin.recipe? "road_access" =
      some (.plain (Declaration.enum RoadAccess false) TagParser.roadAccessOf) := rfl
  have hcar : builtin.recipe? "car_access" = some (.access "car" Vehicle.carOf []) := rfl
  have hroundabout : builtin.recipe? "roundabout" =
      some (.plain Declaration.roundabout TagParser.roundaboutOf) := rfl
  have hmoped : builtin.recipe? "moped" =
      some (.plain (Declaration.enum Moped false) TagParser.mopedOf) := rfl
  have hroadClass : builtin.recipe? "road_class" =
      some (.plain (Declaration.enum RoadClass false) TagParser.roadClassOf) := rfl
  simp [resolve, visit_nil, visit_of_recipe, hroadAccess, hcar, hroundabout, hmoped, hroadClass,
    Recipe.access, Recipe.plain, Except.bind]

private def turningTrunk : Way :=
  .ofTags 1 [("highway", "TRUNK_link"), ("junction", "circular"), ("moped", "Designated"),
    ("access", "yes; permit ;unknown")]

/-- A trunk link in a circle is of the category that it links, though that stands in capitals, and
    of two values for its access the one that permits less counts. -/
theorem builtin_decodes_turningTrunk : ∃ a s',
    builtin.assemble ["road_access", "car_access", "roundabout", "moped", "road_class"] .empty =
      .ok a ∧
    a.layout.names = ["road_access", "car_access", "roundabout", "moped", "road_class"] ∧
    a.pipeline.handle 3 turningTrunk Layout.createRelationFlags (EdgeStorage.zeroed 1 0) =
      .ok .usable s' ∧
    a.layout.TagReads s' 3 Moped.designated ∧ a.layout.TagReads s' 3 RoadClass.trunk ∧
    a.layout.TagReads s' 3 RoadAccess.privateOnly ∧
    ∃ f, a.layout.booleanField "roundabout" = .ok f ∧ ∀ reverse, f.get s' 3 reverse = .ok true := by
  have hassemble : ∃ a, builtin.assemble
      ["road_access", "car_access", "roundabout", "moped", "road_class"] .empty = .ok a ∧
      a.layout.names = ["road_access", "car_access", "roundabout", "moped", "road_class"] ∧
      a.layout.intsPerEdge = 1 ∧ a.pipeline.decide turningTrunk = .usable := by
    rw [assemble, resolve_carAndTags]
    exact ⟨_, rfl, rfl, rfl, rfl⟩
  obtain ⟨a, hassemble, hnames, hwords, hdecide⟩ := hassemble
  have hzero : ∀ f ∈ a.layout.fields, ∀ reverse,
      f.pattern (EdgeStorage.zeroed 1 0) 3 reverse = .ok 0 := by
    obtain ⟨d, hlayout⟩ := layout_of_assemble hassemble
    rw [hlayout] at hwords ⊢
    exact fun f hf reverse => d.pattern_zeroed (le_of_eq hwords) hf 0 3 reverse
  obtain ⟨s', hhandle, -, hreads⟩ :=
    builtin_decodes .empty hassemble 3 turningTrunk Layout.createRelationFlags hzero
  rw [hdecide] at hhandle hreads
  obtain ⟨hmoped, ⟨c, hc, hroadClass⟩, ⟨b, hb, hroadAccess⟩, hroundabout⟩ := hreads (by decide)
  obtain rfl := Way.hasRoadClass_iff.1 hc
  obtain rfl := Way.hasRoadAccess_iff.1 hb
  exact ⟨a, s', hassemble, hnames, hhandle, hmoped, hroadClass, hroadAccess,
    hroundabout (by rw [hnames]; simp [Declaration.roundaboutKey])⟩

end Registry

end EdgeAttributes
