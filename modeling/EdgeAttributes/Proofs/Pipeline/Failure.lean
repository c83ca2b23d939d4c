import EdgeAttributes.Proofs.Pipeline.Frame

namespace EdgeAttributes

variable {width : Nat} {α : Type}

/-- A loop that is refused is so at one position, on what the steps before that position left. -/
theorem Edit.forM_eq_error_iff {step : α → Edit width Unit} {l : List α} {fault : Fault}
    {s s' : EdgeStorage width} : l.forM step s = .error fault s' ↔
      ∃ i t, (l.take i).forM step s = .ok () t ∧ ∃ a, l[i]? = some a ∧
        step a t = .error fault s' := by
  induction l generalizing s with
  | nil =>
    refine iff_of_false (fun h => by cases h) ?_
    rintro ⟨i, t, -, a, ha, -⟩
    cases ha
  | cons b l ih =>
    change (step b >>= fun _ => l.forM step) s = _ ↔ _
    rw [Edit.bind_eq_error_iff]
    constructor
    · rintro (hfirst | ⟨_, u, hfirst, hrest⟩)
      · exact ⟨0, s, rfl, b, rfl, hfirst⟩
      · obtain ⟨i, t, hbefore, a, ha, hrefused⟩ := ih.1 hrest
        exact ⟨i + 1, t, Edit.bind_eq_ok_iff.2 ⟨(), u, hfirst, hbefore⟩, a, ha, hrefused⟩
    · rintro ⟨i, t, hbefore, a, ha, hrefused⟩
      cases i with
      | zero =>
        cases hbefore
        cases ha
        exact .inl hrefused
      | succ i =>
        obtain ⟨_, u, hfirst, hbefore⟩ := Edit.bind_eq_ok_iff.1 hbefore
        exact .inr ⟨(), u, hfirst, ih.2 ⟨i, t, hbefore, a, ha, hrefused⟩⟩

/-- A field reads the same on an edge, in both directions and in whichever form. -/
def Field.ReadsAlike (f : Field) (edge : Nat) (s s' : EdgeStorage width) : Prop :=
  ∀ reverse, f.pattern s' edge reverse = f.pattern s edge reverse ∧
    f.getInt s' edge reverse = f.getInt s edge reverse ∧
    f.format s' edge reverse = f.format s edge reverse

theorem Field.readsAlike_of_pattern {f : Field} {edge : Nat} {s s' : EdgeStorage width}
    (h : ∀ reverse, f.pattern s' edge reverse = f.pattern s edge reverse) :
    f.ReadsAlike edge s s' := fun reverse =>
  ⟨h reverse, by rw [getInt, h reverse, getInt], by rw [format, h reverse, format]⟩

namespace Pipeline

variable {p : Pipeline} {d : Layout.Draft} {way : Way} {flags : RelationFlags} {edge i : Nat}
  {fault : Fault} {s t s' : EdgeStorage width}

/-- A way that is not skipped gets past the parsers before a position, which turn storage `s` into
    `t`, and the parser at the position refuses it and leaves `s'`. -/
structure RefusedAt (p : Pipeline) (i edge : Nat) (way : Way) (flags : RelationFlags)
    (s t : EdgeStorage width) (fault : Fault) (s' : EdgeStorage width) : Prop where
  decided : p.decide way ≠ .skip
  before : (p.parsers.take i).forM (fun q => q.run edge way flags) s = .ok () t
  refused : ∃ q, p.parsers[i]? = some q ∧ q.run edge way flags t = .error fault s'

/-- A pipeline for which storage is wide enough fails exactly where one of its parsers does. -/
theorem handle_eq_error_iff (hwide : p.intsPerEdge ≤ width) :
    p.handle edge way flags s = .error fault s' ↔
      ∃ i t, p.RefusedAt i edge way flags s t fault s' := by
  by_cases hskip : p.decide way = .skip
  · rw [handle_of_skip hwide hskip]
    refine iff_of_false (fun h => by cases h) ?_
    rintro ⟨i, t, hrefused⟩
    exact hrefused.decided hskip
  · rw [handle_of_ne_skip hwide hskip, Edit.bind_eq_error_iff, Edit.forM_eq_error_iff]
    constructor
    · rintro (⟨i, t, hbefore, hrefused⟩ | ⟨_, t, -, hpure⟩)
      · exact ⟨i, t, hskip, hbefore, hrefused⟩
      · cases hpure
    · rintro ⟨i, t, hrefused⟩
      exact .inl ⟨i, t, hrefused.before, hrefused.refused⟩

namespace RefusedAt

/-- Parsers that keep to their values leave all other edges alone, also when one of them refuses. -/
theorem cell_eq (h : p.RefusedAt i edge way flags s t fault s')
    (hdeclares : ∀ q ∈ p.parsers, q.Declares d.freeze) (hwidth : d.freeze.intsPerEdge ≤ width)
    {other : Nat} (hother : other ≠ edge) : s'.cell other = s.cell other := by
  have hkeeps : ∀ q ∈ p.parsers, Edit.Keeps (q.run edge way flags : Edit width Unit)
      fun s s' => s'.cell other = s.cell other := fun q hq =>
    (hdeclares q hq width hwidth edge way flags).imp fun _ _ hagree => hagree.others other hother
  obtain ⟨q, hq, hrefused⟩ := h.refused
  have hbefore : Edit.Keeps
      ((p.parsers.take i).forM fun q => (q.run edge way flags : Edit width Unit))
      fun s s' => s'.cell other = s.cell other := by
    apply Edit.Keeps.forM
    · exact fun _ => rfl
    · exact fun _ _ _ hst htu => htu.trans hst
    · exact fun q hq => hkeeps q (List.mem_of_mem_take hq)
  exact ((hkeeps q (List.mem_of_getElem? hq)).of_eq_error hrefused).trans
    (hbefore.of_eq_ok h.before)

/-- A value that the refusing parser does not write is as the parsers before it left it. -/
theorem readsAlike_before (h : p.RefusedAt i edge way flags s t fault s')
    (hdeclares : ∀ q ∈ p.parsers, q.Declares d.freeze) (hwidth : d.freeze.intsPerEdge ≤ width)
    {f : Field} (hf : f ∈ d.freeze.fields)
    (hname : ∀ q, p.parsers[i]? = some q → f.name ∉ q.writes) : f.ReadsAlike edge t s' := by
  obtain ⟨q, hq, hrefused⟩ := h.refused
  have hkeeps := hdeclares q (List.mem_of_getElem? hq) width hwidth edge way flags
  have hagree := hkeeps.of_eq_error hrefused
  exact Field.readsAlike_of_pattern fun reverse =>
    TagParser.pattern_eq_of_agreeOutside hwidth hagree hf (hname q hq) edge reverse

/-- A value that is written behind the refusing parser or not at all reads as at first. -/
theorem readsAlike_start (h : p.RefusedAt i edge way flags s t fault s')
    (hdeclares : ∀ q ∈ p.parsers, q.Declares d.freeze) (hwidth : d.freeze.intsPerEdge ≤ width)
    {f : Field} (hf : f ∈ d.freeze.fields)
    (hlater : ∀ (j : Nat) q, p.parsers[j]? = some q → f.name ∈ q.writes → i < j) :
    f.ReadsAlike edge s s' := by
  have hafter := h.readsAlike_before hdeclares hwidth hf fun q hq hname =>
    lt_irrefl i (hlater i q hq hname)
  have hunwritten : ∀ q ∈ p.parsers.take i, q.Declares d.freeze ∧ f.name ∉ q.writes := by
    intro q hq
    obtain ⟨j, hj⟩ := List.mem_iff_getElem?.1 hq
    refine ⟨hdeclares q (List.mem_of_mem_take hq), fun hname => ?_⟩
    rw [List.getElem?_take] at hj
    split at hj
    · next hlt => exact lt_asymm hlt (hlater j q hj hname)
    · cases hj
  have hbefore := TagParser.pattern_forM hwidth hf hunwritten h.before
  exact Field.readsAlike_of_pattern fun reverse => (hafter reverse).1.trans (hbefore reverse)

end RefusedAt

/-- A failure in the middle of a pipeline is kept apart. Its parsers may be any that keep to the
    values they name, whatever they read and in whichever way they fail. The pipeline fails exactly
    if one of them does on what the parsers before it left, and with the same error. No other edge
    has changed then. On the edge itself, what is written behind the failing parser or by no parser
    reads as before, and what a parser before it writes reads as those parsers alone leave it.
    Storage may hold anything before, and values of different parsers may share a word. -/
theorem Built.handle_isolates_failure (hp : p.Built)
    (hdeclares : ∀ q ∈ p.parsers, q.Declares d.freeze) (hwide : p.intsPerEdge ≤ width)
    (hwidth : d.freeze.intsPerEdge ≤ width) (edge : Nat) (way : Way) (flags : RelationFlags)
    (s : EdgeStorage width) :
    (∀ fault s', p.handle edge way flags s = .error fault s' ↔
      ∃ i t, p.RefusedAt i edge way flags s t fault s') ∧
    ∀ i t fault s', p.RefusedAt i edge way flags s t fault s' →
      (∀ other, other ≠ edge → s'.cell other = s.cell other) ∧
      (∀ f ∈ d.freeze.fields,
        (∀ (j : Nat) q, p.parsers[j]? = some q → f.name ∈ q.writes → i < j) →
        f.ReadsAlike edge s s') ∧
      ∀ f ∈ d.freeze.fields,
        (∃ (j : Nat) (q : TagParser), j < i ∧ p.parsers[j]? = some q ∧ f.name ∈ q.writes) →
        f.ReadsAlike edge t s' := by
  refine ⟨fun fault s' => handle_eq_error_iff hwide, fun i t fault s' h => ⟨?_, ?_, ?_⟩⟩
  · exact fun other hother => h.cell_eq hdeclares hwidth hother
  · exact fun f hf hlater => h.readsAlike_start hdeclares hwidth hf hlater
  · rintro f hf ⟨j, q, hlt, hq, hname⟩
    refine h.readsAlike_before hdeclares hwidth hf fun q' hq' hname' => ?_
    exact hlt.ne (hp.owned.position_unique hq hq' hname hname')

private def junctionFlag : Declaration := (Declaration.boolean "circular" false).toOption.get rfl

private def laneDigits : Declaration := (Declaration.int "lanes" 3 true).toOption.get rfl

private def carPermits : Declaration := (Declaration.boolean "passable" true).toOption.get rfl

private def lanesBetween : Layout.Draft := ⟨[junctionFlag, laneDigits, carPermits], by decide⟩

private def junctionField : BooleanField := ⟨⟨junctionFlag, ⟨0, 0, 1⟩, none⟩, rfl⟩

private def lanesField : IntField := ⟨⟨laneDigits, ⟨0, 1, 3⟩, some ⟨0, 4, 3⟩⟩, rfl⟩

private def permitField : BooleanField := ⟨⟨carPermits, ⟨0, 7, 1⟩, some ⟨0, 8, 1⟩⟩, rfl⟩

private def moved (n : Int) : List Assignment :=
  [.integer lanesField false (n - 5), .integer lanesField true (n + 2)]

/-- Moves lanes from one direction to the other, as long as there is room. -/
private def movingLanes : TagParser where
  debugText := "MovingLanes"
  writes := ["lanes"]
  run edge _ _ := fun s =>
    match lanesField.get s edge false with
    | .ok n => Assignment.applyAll edge (moved n) s
    | .error fault => .error fault s
  decision _ := none

private def failing : Pipeline :=
  ⟨[.roundabout junctionField, movingLanes, (Vehicle.car false).parser permitField],
    .ofList [("circular", 0), ("lanes", 1), ("passable", 2)], 1⟩

private theorem failing_built : failing.Built :=
  .add (.add (.add (.ofWidth 1) (q := .roundabout junctionField) rfl) (q := movingLanes) rfl)
    (q := (Vehicle.car false).parser permitField) rfl

private theorem movingLanes_declares : movingLanes.Declares lanesBetween.freeze := by
  have hfields : lanesBetween.freeze.fields =
      [junctionField.field, lanesField.field, permitField.field] := rfl
  intro width hwidth edge way flags
  have hkeeps (n : Int) : Edit.Keeps (Assignment.applyAll edge (moved n) : Edit width Unit)
      (EdgeStorage.AgreeOutside edge (movingLanes.declaredSlots lanesBetween.freeze)) := by
    refine (TagParser.applyAll_moves (fun a ha => ?_) hwidth edge).keeps
    obtain rfl | rfl := List.mem_pair.1 ha
    · exact ⟨by simp [hfields, Assignment.target], List.mem_singleton_self _⟩
    · exact ⟨by simp [hfields, Assignment.target], List.mem_singleton_self _⟩
  constructor
  · intro s _ s' h
    simp only [movingLanes] at h
    split at h
    · exact (hkeeps _).of_eq_ok h
    · cases h
  · intro s fault s' h
    simp only [movingLanes] at h
    split at h
    · exact (hkeeps _).of_eq_error h
    · cases h
      exact EdgeStorage.AgreeOutside.refl _ _ _

private theorem failing_declares : ∀ q ∈ failing.parsers, q.Declares lanesBetween.freeze := by
  have hfields : lanesBetween.freeze.fields =
      [junctionField.field, lanesField.field, permitField.field] := rfl
  intro q hq
  simp only [failing, List.mem_cons, List.not_mem_nil, or_false] at hq
  obtain rfl | rfl | rfl := hq
  · exact (TagParser.BuiltOn.roundabout junctionField (by simp [hfields])).declares
  · exact movingLanes_declares
  · exact (TagParser.BuiltOn.vehicle _ permitField (by simp [hfields])).declares

private def circle : Way := .ofTags 1 [("highway", "primary"), ("junction", "roundabout")]

private def crowded : EdgeStorage 1 := (EdgeStorage.zeroed 1 0).put 2 0 0xfffffffe Nat.one_pos

/-- The second of three parsers reads seven lanes. It stores two of them and is refused nine. The
    roundabout stays marked, and the flags of cars stay set, though it is closed backward. -/
theorem Built.handle_isolates_failure_lanes : ∃ s',
    failing.handle 2 circle Layout.createRelationFlags crowded =
      .error (.error (.valueOutOfRange "lanes" 9 0 7)) s' ∧
    junctionField.field.format s' 2 false = .ok "true" ∧
    lanesField.get s' 2 false = .ok 2 ∧ permitField.field.ReadsAlike 2 crowded s' := by
  have hfields : lanesBetween.freeze.fields =
      [junctionField.field, lanesField.field, permitField.field] := rfl
  obtain ⟨hfails, hkept⟩ := failing_built.handle_isolates_failure failing_declares (le_refl 1)
    (le_refl 1) 2 circle Layout.createRelationFlags crowded
  obtain ⟨t, s', hrefused, hmarked, hlanes⟩ : ∃ t s',
      failing.RefusedAt 1 2 circle Layout.createRelationFlags crowded t
        (.error (.valueOutOfRange "lanes" 9 0 7)) s' ∧
      junctionField.field.format t 2 false = .ok "true" ∧ lanesField.get s' 2 false = .ok 2 :=
    ⟨_, _, ⟨by decide, rfl, _, rfl, rfl⟩, rfl, rfl⟩
  obtain ⟨-, hlater, hearlier⟩ := hkept 1 t _ s' hrefused
  refine ⟨s', (hfails _ _).2 ⟨1, t, hrefused⟩, ?_, hlanes, ?_⟩
  · have hjunction := hearlier junctionField.field (by simp [hfields])
      ⟨0, _, Nat.zero_lt_one, rfl, List.mem_singleton_self _⟩
    rw [(hjunction false).2.2, hmarked]
  · refine hlater permitField.field (by simp [hfields]) fun j q hq hname => ?_
    obtain rfl : j = 2 :=
      failing_built.owned.position_unique hq rfl hname (List.mem_singleton_self _)
    decide

end Pipeline

end EdgeAttributes
