import EdgeAttributes.Proofs.Field.Integers
import EdgeAttributes.Proofs.Pipeline.Operations
import EdgeAttributes.Proofs.Storage.Confinement
import EdgeAttributes.Proofs.Storage.Frame
import EdgeAttributes.Registry.Builtin

namespace EdgeAttributes

variable {width : Nat}

/-- An assignment stores one pattern in its field or is refused. Which of the two, and which
    pattern, is a matter of the assignment alone and not of storage. -/
theorem Assignment.apply_cases (a : Assignment) :
    (∃ direction pattern, ∀ width edge,
      (a.apply edge : Edit width Unit) = a.target.setPattern edge direction pattern) ∨
    ∃ e, ∀ width edge, (a.apply edge : Edit width Unit) = throw (.error e) := by
  have integer (f : Field) (reverse : Bool) (value : Int) :
      (∃ direction pattern, ∀ width edge,
        (f.setInt edge reverse value : Edit width Unit) = f.setPattern edge direction pattern) ∨
      ∃ e, ∀ width edge, (f.setInt edge reverse value : Edit width Unit) = throw (.error e) := by
    by_cases hrange : f.declaration.InRange value
    · exact .inl ⟨reverse, _, fun width edge => f.setInt_of_inRange edge reverse hrange⟩
    · exact .inr ⟨_, fun width edge => funext (f.setInt_of_not_inRange edge reverse hrange)⟩
  cases a with
  | flag f reverse value => exact .inl ⟨reverse, _, fun _ _ => rfl⟩
  | integer f reverse value => exact integer f.field reverse value
  | decimal f reverse value =>
    simp only [apply, target, DecimalField.set]
    cases (Decimal.nearestInt? (value / f.factor)).filter
        fun n => decide (0 ≤ n) && decide (n ≤ f.field.declaration.max) with
    | none => exact .inr ⟨_, fun _ _ => rfl⟩
    | some n => exact integer f.field reverse n
  | ordinal f reverse n => exact .inl ⟨reverse, _, fun _ _ => rfl⟩

theorem Assignment.apply_stamps (a : Assignment) :
    Edit.Stamps fun edge => (a.apply edge : Edit width Unit) := by
  obtain ⟨direction, pattern, happly⟩ | ⟨e, happly⟩ := a.apply_cases
  · simp only [happly]
    exact a.target.setPattern_stamps direction pattern
  · simp only [happly]
    exact Edit.Stamps.throw _

namespace TagParser

/-- Running a parser comes to nothing but assignments that it makes of the way and the flags. -/
def Assigns (q : TagParser) (assignments : Way → RelationFlags → List Assignment) : Prop :=
  ∀ (width edge : Nat) (way : Way) (flags : RelationFlags),
    (q.run edge way flags : Edit width Unit) = Assignment.applyAll edge (assignments way flags)

/-- A parser works on the words of the edge that it is handed alone, and does the same for every
    edge: what comes of a way is a matter of the way, the flags and those words. -/
def Confined (q : TagParser) : Prop :=
  ∀ (width : Nat) (way : Way) (flags : RelationFlags),
    Edit.Confined fun edge => (q.run edge way flags : Edit width Unit)

variable {q : TagParser} {assignments : Way → RelationFlags → List Assignment}

theorem Assigns.run_stamps (hq : q.Assigns assignments) (way : Way) (flags : RelationFlags) :
    Edit.Stamps fun edge => (q.run edge way flags : Edit width Unit) := by
  simp only [hq width]
  exact Edit.Stamps.forM fun a _ => a.apply_stamps

theorem Assigns.confined (hq : q.Assigns assignments) : q.Confined := fun _ way flags =>
  (hq.run_stamps way flags).confined

end TagParser

/-- What a pipeline answers for a way, and what it stamps on the edge, depends on the pipeline and
    the way if its parsers stamp what they store. -/
theorem Pipeline.handle_stamps {p : Pipeline} {way : Way} {flags : RelationFlags}
    (hp : ∀ q ∈ p.parsers, Edit.Stamps fun edge => (q.run edge way flags : Edit width Unit)) :
    Edit.Stamps fun edge => (p.handle edge way flags : Edit width Decision) := by
  by_cases hwidth : p.intsPerEdge ≤ width
  · by_cases hskip : p.decide way = .skip
    · simp only [handle_of_skip hwidth hskip]
      exact Edit.Stamps.pure _
    · simp only [handle_of_ne_skip hwidth hskip]
      apply Edit.Stamps.bind
      · exact Edit.Stamps.forM hp
      · exact fun _ => Edit.Stamps.pure _
  · simp only [handle_of_lt (Nat.lt_of_not_le hwidth)]
    exact Edit.Stamps.throw _

/-- A pipeline works on the words of its edge alone if its parsers do. -/
theorem Pipeline.handle_confined {p : Pipeline} (hp : ∀ q ∈ p.parsers, q.Confined) (way : Way)
    (flags : RelationFlags) :
    Edit.Confined fun edge => (p.handle edge way flags : Edit width Decision) := by
  by_cases hwidth : p.intsPerEdge ≤ width
  · by_cases hskip : p.decide way = .skip
    · simp only [handle_of_skip hwidth hskip]
      exact Edit.Confined.pure _
    · simp only [handle_of_ne_skip hwidth hskip]
      apply Edit.Confined.bind
      · exact Edit.Confined.forM fun q hq => hp q hq width way flags
      · exact fun _ => Edit.Confined.pure _
  · simp only [handle_of_lt (Nat.lt_of_not_le hwidth)]
    exact Edit.Confined.throw _

namespace TagParser

/-- The slots of the values that a parser names. -/
def declaredSlots (q : TagParser) (l : Layout) : List Slot :=
  Field.slotsOf (l.fields.filter fun f => q.writes.contains f.name)

/-- Whatever a parser does for an edge, in storage as wide as a layout, no bit changes outside of
    the slots of the values that it names, nor any other edge. That holds also where it ends early,
    and whatever it reads. -/
def Declares (q : TagParser) (l : Layout) : Prop :=
  ∀ width, l.intsPerEdge ≤ width → ∀ (edge : Nat) (way : Way) (flags : RelationFlags),
    Edit.Keeps (q.run edge way flags : Edit width Unit)
      (EdgeStorage.AgreeOutside edge (q.declaredSlots l))

/-- The known parsers, each for a value of a layout: a vehicle with any rules and overrides, and the
    parsers of the single attributes. The value need not be declared as the attribute declares
    it. -/
inductive BuiltOn (l : Layout) : TagParser → Prop
  | vehicle (v : Vehicle) (f : BooleanField) (hf : f.field ∈ l.fields) : BuiltOn l (v.parser f)
  | moped (f : EnumField Moped) (hf : f.field ∈ l.fields) : BuiltOn l (.moped f)
  | roadClass (f : EnumField RoadClass) (hf : f.field ∈ l.fields) : BuiltOn l (.roadClass f)
  | roadAccess (f : EnumField RoadAccess) (hf : f.field ∈ l.fields) : BuiltOn l (.roadAccess f)
  | roundabout (f : BooleanField) (hf : f.field ∈ l.fields) : BuiltOn l (.roundabout f)
  | maxSpeed (f : DecimalField) (hf : f.field ∈ l.fields) : BuiltOn l (.maxSpeed f)

variable {q : TagParser}

private theorem target_assign {α : Type} [DecidableEq α] [TagEnum α] {f : EnumField α} {value : α}
    {a : Assignment} (ha : a ∈ if value = TagEnum.missing then [] else [f.assign false value]) :
    a.target = f.field := by
  split at ha
  · cases ha
  · rw [List.mem_singleton.1 ha]
    rfl

private theorem target_assignLimit {f : DecimalField} {way : Way} {reverse : Bool}
    {a : Assignment} (ha : a ∈ f.assignLimit way reverse) : a.target = f.field := by
  rw [DecimalField.assignLimit] at ha
  split at ha
  · rw [List.mem_singleton.1 ha]
    rfl
  · cases ha

/-- Every known parser makes assignments to the one value that it names. -/
theorem BuiltOn.exists_assigns {l : Layout} (hq : q.BuiltOn l) :
    ∃ assignments, q.Assigns assignments ∧ ∃ f ∈ l.fields, q.writes = [f.name] ∧
      ∀ way flags, ∀ a ∈ assignments way flags, a.target = f := by
  cases hq with
  | vehicle v f hf =>
    refine ⟨_, fun _ _ _ _ => rfl, f.field, hf, rfl, fun way flags a ha => ?_⟩
    split at ha
    · rcases List.mem_pair.1 ha with rfl | rfl
      · rfl
      · rfl
    · cases ha
  | moped f hf =>
    exact ⟨_, fun _ _ _ _ => rfl, f.field, hf, rfl, fun _ _ _ => target_assign⟩
  | roadClass f hf =>
    exact ⟨_, fun _ _ _ _ => rfl, f.field, hf, rfl, fun _ _ _ => target_assign⟩
  | roadAccess f hf =>
    exact ⟨_, fun _ _ _ _ => rfl, f.field, hf, rfl, fun _ _ _ => target_assign⟩
  | roundabout f hf =>
    refine ⟨_, fun _ _ _ _ => rfl, f.field, hf, rfl, fun way flags a ha => ?_⟩
    split at ha
    · rw [List.mem_singleton.1 ha]
      rfl
    · cases ha
  | maxSpeed f hf =>
    refine ⟨_, fun _ _ _ _ => rfl, f.field, hf, rfl, fun way flags a ha => ?_⟩
    rcases List.mem_append.1 ha with ha | ha
    · exact target_assignLimit ha
    · exact target_assignLimit ha

theorem BuiltOn.run_stamps {l : Layout} (hq : q.BuiltOn l) (way : Way) (flags : RelationFlags) :
    Edit.Stamps fun edge => (q.run edge way flags : Edit width Unit) := by
  obtain ⟨assignments, hassigns, -⟩ := hq.exists_assigns
  exact hassigns.run_stamps way flags

/-- Every known parser does the same for every edge and looks at no other. -/
theorem BuiltOn.confined {l : Layout} (hq : q.BuiltOn l) : q.Confined := fun _ way flags =>
  (hq.run_stamps way flags).confined

variable {d : Layout.Draft}

private theorem slots_subset_declaredSlots {f : Field} (hf : f ∈ d.freeze.fields)
    (hname : f.name ∈ q.writes) (reverse : Bool) : [f.slot reverse] ⊆ q.declaredSlots d.freeze := by
  intro slot hslot
  rw [List.mem_singleton.1 hslot]
  exact Field.mem_slotsOf (List.mem_filter.2 ⟨hf, by simpa using hname⟩) reverse

/-- Assignments to values that a parser names change only bits of their slots on the edge, also when
    a value is refused halfway. -/
theorem applyAll_moves {assignments : List Assignment} (htargets : ∀ a ∈ assignments,
      a.target ∈ d.freeze.fields ∧ a.target.name ∈ q.writes)
    (hwidth : d.freeze.intsPerEdge ≤ width) (edge : Nat) :
    Edit.Moves (Assignment.applyAll edge assignments : Edit width Unit)
      (EdgeStorage.AgreeOutside edge (q.declaredSlots d.freeze)) := by
  apply Edit.Moves.forM (EdgeStorage.AgreeOutside.refl _ _) fun _ _ _ h h' => h.trans h'
  intro a ha
  obtain ⟨htarget, hname⟩ := htargets a ha
  rcases a.apply_cases with ⟨direction, pattern, happly⟩ | ⟨e, happly⟩
  · rw [happly]
    have hindex := Nat.lt_of_lt_of_le (d.slot_index_lt htarget direction) hwidth
    apply (a.target.setPattern_moves edge direction pattern (d.slot_inside htarget direction)
      hindex).imp
    exact fun _ _ h => h.mono (slots_subset_declaredSlots htarget hname direction)
  · rw [happly]
    exact Edit.Moves.throw (EdgeStorage.AgreeOutside.refl _ _) e

theorem BuiltOn.run_moves (hq : q.BuiltOn d.freeze) (hwidth : d.freeze.intsPerEdge ≤ width)
    (edge : Nat) (way : Way) (flags : RelationFlags) :
    Edit.Moves (q.run edge way flags : Edit width Unit)
      (EdgeStorage.AgreeOutside edge (q.declaredSlots d.freeze)) := by
  obtain ⟨assignments, hassigns, f, hf, hwrites, htarget⟩ := hq.exists_assigns
  rw [hassigns]
  refine applyAll_moves (fun a ha => ?_) hwidth edge
  rw [htarget way flags a ha, hwrites]
  exact ⟨hf, List.mem_singleton_self _⟩

theorem BuiltOn.declares (hq : q.BuiltOn d.freeze) : q.Declares d.freeze :=
  fun _ hwidth edge way flags => (hq.run_moves hwidth edge way flags).keeps

/-- What agrees outside of the slots that a parser declares reads alike in every other value. -/
theorem pattern_eq_of_agreeOutside (hwidth : d.freeze.intsPerEdge ≤ width) {edge : Nat}
    {s s' : EdgeStorage width} (h : s.AgreeOutside edge (q.declaredSlots d.freeze) s') {g : Field}
    (hg : g ∈ d.freeze.fields) (hname : g.name ∉ q.writes) (other : Nat) (reverse : Bool) :
    g.pattern s' other reverse = g.pattern s other reverse := by
  apply h.pattern_eq (d.slot_inside hg reverse) ?_
    (Nat.lt_of_lt_of_le (d.slot_index_lt hg reverse) hwidth)
  intro slot hslot
  obtain ⟨f, hf, hslot⟩ := List.mem_flatMap.1 hslot
  obtain ⟨hf, hwrites⟩ := List.mem_filter.1 hf
  have hne : f ≠ g := by
    rintro rfl
    exact hname (by simpa using hwrites)
  exact d.slots_disjoint_of_ne hf hg hne hslot (g.slot_mem_slots reverse)

/-- Parsers that do not write a value leave it as it was. -/
theorem pattern_forM {parsers : List TagParser} (hwidth : d.freeze.intsPerEdge ≤ width)
    {g : Field} (hg : g ∈ d.freeze.fields)
    (hparsers : ∀ q ∈ parsers, q.Declares d.freeze ∧ g.name ∉ q.writes) {edge : Nat}
    {way : Way} {flags : RelationFlags} {s s' : EdgeStorage width}
    (hrun : (parsers.forM fun q => q.run edge way flags) s = .ok () s') (reverse : Bool) :
    g.pattern s' edge reverse = g.pattern s edge reverse := by
  have hkeeps : Edit.Keeps (parsers.forM fun q => (q.run edge way flags : Edit width Unit))
      fun s s' => g.pattern s' edge reverse = g.pattern s edge reverse := by
    apply Edit.Keeps.forM
    · exact fun _ => rfl
    · exact fun _ _ _ h h' => h'.trans h
    · intro q hq
      obtain ⟨hdeclares, hname⟩ := hparsers q hq
      apply (hdeclares width hwidth edge way flags).imp
      exact fun _ _ hagree =>
        pattern_eq_of_agreeOutside hwidth hagree hg hname edge reverse
  exact hkeeps.of_eq_ok hrun

/-- Every known parser keeps to the values that it names. Whether it stores all it wants to or a
    value is refused, no bit of another edge changes, and none of its own edge outside of the slots
    of those values, so all other values read as before. Storage may hold anything before. -/
theorem BuiltOn.run_agreeOutside (hq : q.BuiltOn d.freeze) (hwidth : d.freeze.intsPerEdge ≤ width)
    (edge : Nat) (way : Way) (flags : RelationFlags) (s : EdgeStorage width) :
    ∃ s', (q.run edge way flags s = .ok () s' ∨
        ∃ e, q.run edge way flags s = .error (.error e) s') ∧
      s.AgreeOutside edge (q.declaredSlots d.freeze) s' ∧
      ∀ g ∈ d.freeze.fields, g.name ∉ q.writes → ∀ other reverse,
        g.pattern s' other reverse = g.pattern s other reverse ∧
        g.getInt s' other reverse = g.getInt s other reverse ∧
        g.format s' other reverse = g.format s other reverse := by
  obtain ⟨s', hagree, hend⟩ := hq.run_moves hwidth edge way flags s
  refine ⟨s', hend, hagree, fun g hg hname other reverse => ?_⟩
  have hpattern := pattern_eq_of_agreeOutside hwidth hagree hg hname other reverse
  exact ⟨hpattern, by rw [Field.getInt, hpattern, Field.getInt],
    by rw [Field.format, hpattern, Field.format]⟩

private def circleFlag : Declaration :=
  (Declaration.boolean "roundabout" false).toOption.get rfl

private def carFlags : Declaration :=
  (Declaration.boolean "car_access" true).toOption.get rfl

private def circleAndCar : Layout.Draft := ⟨[circleFlag, carFlags], by decide⟩

private def circleField : Field := ⟨circleFlag, ⟨0, 0, 1⟩, none⟩

private def carField : BooleanField := ⟨⟨carFlags, ⟨0, 1, 1⟩, some ⟨0, 2, 1⟩⟩, rfl⟩

private def carParser : TagParser := (Vehicle.car false).parser carField

private def crowded : EdgeStorage 2 := (EdgeStorage.zeroed 2 1).put 3 0 0xffffffff (by decide)

private def oneWayRoad : Way := .ofTags 1 [("highway", "residential"), ("oneway", "yes")]

/-- The flag next to the two of the car stays set in a word of ones. -/
theorem run_agreeOutside_car : ∃ s',
    (carParser.run 3 oneWayRoad Layout.createRelationFlags crowded = .ok () s' ∨
      ∃ e, carParser.run 3 oneWayRoad Layout.createRelationFlags crowded = .error (.error e) s') ∧
    crowded.AgreeOutside 3 [⟨0, 1, 1⟩, ⟨0, 2, 1⟩] s' ∧
    circleField.pattern s' 3 false = .ok 1 := by
  have hfields : circleAndCar.freeze.fields = [circleField, carField.field] := rfl
  have hcar : carField.field ∈ circleAndCar.freeze.fields := by simp [hfields]
  obtain ⟨s', hend, hagree, hread⟩ := (BuiltOn.vehicle (Vehicle.car false) carField hcar)
    |>.run_agreeOutside (by decide) 3 oneWayRoad Layout.createRelationFlags crowded
  refine ⟨s', hend, hagree, ?_⟩
  rw [(hread circleField (by simp [hfields]) (by decide) 3 false).1]
  rfl

end TagParser

end EdgeAttributes
