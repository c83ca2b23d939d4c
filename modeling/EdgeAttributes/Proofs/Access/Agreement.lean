import EdgeAttributes.Proofs.Pipeline.Frame
import EdgeAttributes.Proofs.Pipeline.Runs

namespace EdgeAttributes

variable {width : Nat}

namespace Vehicle

variable {v : Vehicle} {way : Way}

/-- Whether a way is open in a direction. -/
def isOpen (v : Vehicle) (way : Way) (reverse : Bool) : Bool :=
  (v.open? way).any fun directions => if reverse then directions.2 else directions.1

/-- No tags make a way one-way against both of its directions. -/
theorem directions_ne (v : Vehicle) (way : Way) : v.directions way ≠ (false, false) := by
  rw [directions]
  split
  case h_9 => split <;> simp
  all_goals simp

theorem isOpen_of_skip (h : v.decide way = .skip) (reverse : Bool) :
    v.isOpen way reverse = false := by
  simp [isOpen, open?, h]

theorem isOpen_of_special (h : v.decide way = .special) (reverse : Bool) :
    v.isOpen way reverse = true := by
  simp [isOpen, open?, h]

theorem exists_isOpen_of_usable (h : v.decide way = .usable) :
    ∃ reverse, v.isOpen way reverse = true := by
  have hne := v.directions_ne way
  simp only [isOpen, open?, h, Option.any_some]
  generalize v.directions way = directions at hne
  obtain ⟨forward, backward⟩ := directions
  cases forward with
  | true => exact ⟨false, rfl⟩
  | false =>
    cases backward with
    | true => exact ⟨true, rfl⟩
    | false => exact absurd rfl hne

theorem isOpen_eq_false_iff : (∀ reverse, v.isOpen way reverse = false) ↔ v.decide way = .skip := by
  refine ⟨fun hclosed => ?_, isOpen_of_skip⟩
  cases hdecide : v.decide way with
  | skip => rfl
  | special => cases (hclosed false).symm.trans (isOpen_of_special hdecide false)
  | usable =>
    obtain ⟨reverse, hopen⟩ := exists_isOpen_of_usable hdecide
    cases (hclosed reverse).symm.trans hopen

/-- The flags of a vehicle on an edge where both were clear say what is open afterwards. -/
theorem get_run {d : Layout.Draft} (hwidth : d.freeze.intsPerEdge ≤ width) {f : BooleanField}
    (hf : f.field ∈ d.freeze.fields) (htwo : f.field.declaration.twoDirections = true) {edge : Nat}
    {flags : RelationFlags} {s s' : EdgeStorage width}
    (hclear : ∀ reverse, f.get s edge reverse = .ok false)
    (hrun : (v.parser f).run edge way flags s = .ok () s') (reverse : Bool) :
    f.get s' edge reverse = .ok (v.isOpen way reverse) := by
  cases hopen : v.open? way with
  | none =>
    simp only [parser, TagParser.ofAssignments, hopen] at hrun
    cases hrun
    rw [hclear reverse, isOpen, hopen]
    rfl
  | some directions =>
    obtain ⟨forward, backward⟩ := directions
    simp only [parser, TagParser.ofAssignments, hopen] at hrun
    obtain ⟨_, s₁, hforward, hrun⟩ := Edit.bind_eq_ok_iff.1 hrun
    obtain ⟨_, s₂, hbackward, hrun⟩ := Edit.bind_eq_ok_iff.1 hrun
    cases hrun
    obtain ⟨t₁, hset₁, hread₁⟩ := d.pattern_setPattern hwidth hf edge false
      (f.stores_flag false forward).fits s
    cases hforward.symm.trans hset₁
    obtain ⟨t₂, hset₂, hread₂⟩ := d.pattern_setPattern hwidth hf edge true
      (f.stores_flag true backward).fits s₁
    cases hbackward.symm.trans hset₂
    -- The backward flag is a cell of its own, so storing it leaves the forward one as just stored.
    rw [BooleanField.get, hread₂ _ hf, hread₁ _ hf, isOpen, hopen]
    cases reverse with
    | false => cases forward <;> simp [Field.address, htwo, Except.map]
    | true => cases backward <;> simp [Field.address, Except.map]

end Vehicle

namespace Pipeline

/-- A pipeline stores the access of a vehicle in a flag of a layout, apart for each direction. -/
structure HasVehicle (p : Pipeline) (l : Layout) (v : Vehicle) (f : BooleanField) : Prop where
  mem : v.parser f ∈ p.parsers
  field : f.field ∈ l.fields
  twoDirections : f.field.declaration.twoDirections = true

/-- All parsers are for values of a layout, and only vehicles with a flag for each direction decide
    ways. -/
def Over (p : Pipeline) (l : Layout) : Prop :=
  ∀ q ∈ p.parsers, (∃ v f, q = v.parser f ∧ p.HasVehicle l v f) ∨
    (q.Declares l ∧ ∀ way, q.decision way = none)

variable {p : Pipeline} {d : Layout.Draft} {v : Vehicle} {f : BooleanField} {way : Way}

theorem Over.declares (h : p.Over d.freeze) {q : TagParser} (hq : q ∈ p.parsers) :
    q.Declares d.freeze := by
  obtain ⟨v, f, rfl, hv⟩ | ⟨hdeclares, -⟩ := h q hq
  · exact (TagParser.BuiltOn.vehicle v f hv.field).declares
  · exact hdeclares

theorem decide_eq_skip_iff {l : Layout} (h : p.Over l) (hv : p.HasVehicle l v f) :
    p.decide way = .skip ↔ ∀ v f, p.HasVehicle l v f → v.decide way = .skip := by
  rw [decide, Decision.combineAll_eq_skip_iff]
  constructor
  · rintro ⟨-, hall⟩ v f hv
    exact hall _ (List.mem_filterMap.2 ⟨_, hv.mem, rfl⟩)
  · intro hskip
    refine ⟨List.mem_filterMap.2 ⟨_, hv.mem, congrArg some (hskip v f hv)⟩, fun x hx => ?_⟩
    obtain ⟨q, hq, hdecision⟩ := List.mem_filterMap.1 hx
    obtain ⟨v, f, rfl, hv⟩ | ⟨-, hnone⟩ := h q hq
    · exact (Option.some.inj hdecision).symm.trans (hskip v f hv)
    · rw [hnone way] at hdecision
      cases hdecision

/-- The flags of each vehicle come from its own parser, whatever runs before and after. -/
theorem get_forM (hp : p.Built) (hover : p.Over d.freeze) (hwidth : d.freeze.intsPerEdge ≤ width)
    (hv : p.HasVehicle d.freeze v f) {edge : Nat} {flags : RelationFlags}
    {s s' : EdgeStorage width} (hclear : ∀ reverse, f.get s edge reverse = .ok false)
    (hrun : (p.parsers.forM fun q => q.run edge way flags) s = .ok () s') (reverse : Bool) :
    f.get s' edge reverse = .ok (v.isOpen way reverse) := by
  obtain ⟨before, behind, hsplit⟩ := List.append_of_mem hv.mem
  have hwriters := hp.owned.pairwise_disjoint
  rw [hsplit, List.pairwise_append, List.pairwise_cons] at hwriters
  obtain ⟨-, ⟨hbehind, -⟩, hbefore⟩ := hwriters
  have hothers : ∀ q ∈ before ++ behind, q.Declares d.freeze ∧ f.field.name ∉ q.writes := by
    intro q hq
    refine ⟨hover.declares ?_, fun hname => ?_⟩
    · rw [hsplit]
      rcases List.mem_append.1 hq with hq | hq
      · exact List.mem_append_left _ hq
      · exact List.mem_append_right _ (List.mem_cons_of_mem _ hq)
    · rcases List.mem_append.1 hq with hq | hq
      · exact hbefore q hq _ List.mem_cons_self hname (List.mem_singleton_self _)
      · exact hbehind q hq (List.mem_singleton_self _) hname
  -- So the flags are still clear when the parser of the vehicle comes, and stay as it leaves them.
  rw [hsplit, List.forM_eq_forM, List.forM_append] at hrun
  obtain ⟨_, s₁, hrun₁, hrun⟩ := Edit.bind_eq_ok_iff.1 hrun
  obtain ⟨_, s₂, hrun₂, hrun₃⟩ := Edit.bind_eq_ok_iff.1 hrun
  have hread₁ := TagParser.pattern_forM hwidth hv.field
    (fun q hq => hothers q (List.mem_append_left _ hq)) hrun₁
  have hread₃ := TagParser.pattern_forM hwidth hv.field
    (fun q hq => hothers q (List.mem_append_right _ hq)) hrun₃
  have hclear₁ : ∀ reverse, f.get s₁ edge reverse = .ok false := by
    intro reverse
    rw [BooleanField.get, hread₁ reverse]
    exact hclear reverse
  have hopen := Vehicle.get_run hwidth hv.field hv.twoDirections hclear₁ hrun₂ reverse
  rw [BooleanField.get, hread₃ reverse]
  exact hopen

/-- A pipeline returns the decision of its vehicles together, and the flags of each vehicle that
    were clear say what that vehicle itself has open. -/
theorem get_handle (hp : p.Built) (hover : p.Over d.freeze) (hwidth : d.freeze.intsPerEdge ≤ width)
    (hv : p.HasVehicle d.freeze v f) {edge : Nat} {flags : RelationFlags}
    {s s' : EdgeStorage width} (hclear : ∀ reverse, f.get s edge reverse = .ok false)
    {decision : Decision} (hhandle : p.handle edge way flags s = .ok decision s') :
    decision = p.decide way ∧ ∀ reverse, f.get s' edge reverse = .ok (v.isOpen way reverse) := by
  by_cases hwide : p.intsPerEdge ≤ width
  · by_cases hskip : p.decide way = .skip
    · rw [handle_of_skip hwide hskip] at hhandle
      cases hhandle
      refine ⟨hskip.symm, fun reverse => ?_⟩
      rw [hclear reverse, Vehicle.isOpen_of_skip ((decide_eq_skip_iff hover hv).1 hskip v f hv)]
    · rw [handle_of_ne_skip hwide hskip] at hhandle
      obtain ⟨_, t, hrun, hdone⟩ := Edit.bind_eq_ok_iff.1 hhandle
      cases hdone
      exact ⟨rfl, get_forM hp hover hwidth hv hclear hrun⟩
  · rw [handle_of_lt (Nat.lt_of_not_le hwide)] at hhandle
    cases hhandle

/-- What a pipeline answers agrees with what it stores on an edge that read as zero. The flags of a
    vehicle are both clear exactly if that vehicle skips the way, one of them is set if the way is
    usable, and both are set if it is special. The answer is to skip the way exactly if no flag of
    any vehicle is set. -/
theorem Built.access_agrees (hp : p.Built) (hover : p.Over d.freeze)
    (hsome : ∃ v f, p.HasVehicle d.freeze v f) (hwidth : d.freeze.intsPerEdge ≤ width) {edge : Nat}
    {flags : RelationFlags} {s s' : EdgeStorage width}
    (hzero : ∀ g ∈ d.freeze.fields, ∀ reverse, g.pattern s edge reverse = .ok 0)
    {decision : Decision} (hhandle : p.handle edge way flags s = .ok decision s') :
    (∀ v f, p.HasVehicle d.freeze v f →
      (∀ reverse, f.get s' edge reverse = .ok (v.isOpen way reverse)) ∧
      ((∀ reverse, f.get s' edge reverse = .ok false) ↔ v.decide way = .skip) ∧
      (v.decide way = .usable → ∃ reverse, f.get s' edge reverse = .ok true) ∧
      (v.decide way = .special → ∀ reverse, f.get s' edge reverse = .ok true)) ∧
    (decision = .skip ↔
      ∀ v f, p.HasVehicle d.freeze v f → ∀ reverse, f.get s' edge reverse = .ok false) := by
  have hagree : ∀ v f, p.HasVehicle d.freeze v f → decision = p.decide way ∧
      ∀ reverse, f.get s' edge reverse = .ok (v.isOpen way reverse) := by
    intro v f hv
    refine get_handle hp hover hwidth hv (fun reverse => ?_) hhandle
    rw [BooleanField.get, hzero _ hv.field reverse]
    rfl
  have hclosed : ∀ v f, p.HasVehicle d.freeze v f →
      ((∀ reverse, f.get s' edge reverse = .ok false) ↔ v.decide way = .skip) := by
    intro v f hv
    simp only [(hagree v f hv).2, Except.ok.injEq]
    exact Vehicle.isOpen_eq_false_iff
  refine ⟨fun v f hv => ⟨(hagree v f hv).2, hclosed v f hv, fun husable => ?_,
    fun hspecial reverse => ?_⟩, ?_⟩
  · obtain ⟨reverse, hopen⟩ := Vehicle.exists_isOpen_of_usable husable
    exact ⟨reverse, by rw [(hagree v f hv).2, hopen]⟩
  · rw [(hagree v f hv).2, Vehicle.isOpen_of_special hspecial]
  · obtain ⟨v₀, f₀, hv₀⟩ := hsome
    rw [(hagree v₀ f₀ hv₀).1, decide_eq_skip_iff hover hv₀]
    exact forall₂_congr fun v f => forall_congr' fun hv => (hclosed v f hv).symm

private def loop : Declaration := Declaration.roundabout.toOption.get rfl

private def forCars : Declaration := (Declaration.vehicleAccess "car").toOption.get rfl

private def forMopeds : Declaration := (Declaration.vehicleAccess "moped").toOption.get rfl

private def loopAndAccess : Layout.Draft := ⟨[loop, forCars, forMopeds], by decide⟩

private def loopField : BooleanField := ⟨⟨loop, ⟨0, 0, 1⟩, none⟩, rfl⟩

private def carAccess : BooleanField := ⟨⟨forCars, ⟨0, 1, 1⟩, some ⟨0, 2, 1⟩⟩, rfl⟩

private def mopedAccess : BooleanField := ⟨⟨forMopeds, ⟨0, 3, 1⟩, some ⟨0, 4, 1⟩⟩, rfl⟩

private def carAndMoped : Pipeline :=
  ⟨[.roundabout loopField, (Vehicle.car false).parser carAccess,
    (Vehicle.moped false).parser mopedAccess],
    .ofList [("roundabout", 0), ("car_access", 1), ("moped_access", 2)], 1⟩

private def cycleway : Way := .ofTags 1 [("highway", "cycleway"), ("moped", "designated")]

/-- Cars skip a cycleway that is kept for mopeds, and have no flag there. -/
theorem Built.access_agrees_cycleway : ∃ s',
    carAndMoped.handle 2 cycleway Layout.createRelationFlags (EdgeStorage.zeroed 1 0) =
      .ok .usable s' ∧
    (∃ reverse, mopedAccess.get s' 2 reverse = .ok true) ∧
    ∀ reverse, carAccess.get s' 2 reverse = .ok false := by
  have hfields : loopAndAccess.freeze.fields =
      [loopField.field, carAccess.field, mopedAccess.field] := rfl
  have hbuilt : carAndMoped.Built :=
    .add (.add (.add (.ofWidth 1) (q := .roundabout loopField) rfl)
      (q := (Vehicle.car false).parser carAccess) rfl)
      (q := (Vehicle.moped false).parser mopedAccess) rfl
  have hcar : carAndMoped.HasVehicle loopAndAccess.freeze (Vehicle.car false) carAccess :=
    ⟨by simp [carAndMoped], by simp [hfields], rfl⟩
  have hmoped : carAndMoped.HasVehicle loopAndAccess.freeze (Vehicle.moped false) mopedAccess :=
    ⟨by simp [carAndMoped], by simp [hfields], rfl⟩
  have hover : carAndMoped.Over loopAndAccess.freeze := by
    intro q hq
    simp only [carAndMoped, List.mem_cons, List.not_mem_nil, or_false] at hq
    rcases hq with rfl | rfl | rfl
    · exact .inr ⟨(TagParser.BuiltOn.roundabout loopField (by simp [hfields])).declares,
        fun _ => rfl⟩
    · exact .inl ⟨_, _, rfl, hcar⟩
    · exact .inl ⟨_, _, rfl, hmoped⟩
  obtain ⟨s', hhandle⟩ : ∃ s', carAndMoped.handle 2 cycleway Layout.createRelationFlags
      (EdgeStorage.zeroed 1 0) = .ok .usable s' := ⟨_, rfl⟩
  obtain ⟨hvehicles, -⟩ := Built.access_agrees hbuilt hover ⟨_, _, hcar⟩ (le_refl 1)
    (fun g hg => loopAndAccess.pattern_zeroed (le_refl 1) hg 0 2) hhandle
  obtain ⟨-, hskip, -⟩ := hvehicles _ _ hcar
  obtain ⟨-, -, husable, -⟩ := hvehicles _ _ hmoped
  exact ⟨s', hhandle, husable rfl, hskip.2 rfl⟩

end Pipeline

end EdgeAttributes
