import EdgeAttributes.Proofs.Field.Integers
import EdgeAttributes.Proofs.Layout.Cells

namespace EdgeAttributes

/-- A call that stores a value: an integer through any field or through a view of integers, a flag,
    or a tag value. -/
inductive Write : Type 1 where
  | any (field : Field) (edge : Nat) (reverse : Bool) (value : Int)
  | int (field : IntField) (edge : Nat) (reverse : Bool) (value : Int)
  | flag (field : BooleanField) (edge : Nat) (reverse : Bool) (value : Bool)
  | tag (α : Type) [DecidableEq α] [TagEnum α] (field : EnumField α) (edge : Nat) (reverse : Bool)
      (value : α)

namespace Write

variable {width : Nat}

/-- The field that is written. -/
def field : Write → Field
  | .any f .. => f
  | .int f .. => f.field
  | .flag f .. => f.field
  | @tag _ _ _ f _ _ _ => f.field

/-- The edge that is written. -/
def edge : Write → Nat
  | .any _ edge .. => edge
  | .int _ edge .. => edge
  | .flag _ edge .. => edge
  | @tag _ _ _ _ edge _ _ => edge

/-- The direction that is written. -/
def reverse : Write → Bool
  | .any _ _ reverse _ => reverse
  | .int _ _ reverse _ => reverse
  | .flag _ _ reverse _ => reverse
  | @tag _ _ _ _ _ reverse _ => reverse

/-- The integer that a write stores: one or zero for a flag, the ordinal of a tag value. -/
def value : Write → Int
  | .any _ _ _ value => value
  | .int _ _ _ value => value
  | .flag _ _ _ value => value.toInt
  | @tag _ _ _ _ _ _ value => (TagEnum.ordinal value : Nat)

/-- The place where the value is kept. -/
def address (w : Write) : Address := w.field.address w.edge w.reverse

/-- The field can hold the value. -/
def InRange (w : Write) : Prop := w.field.declaration.InRange w.value

instance (w : Write) : Decidable w.InRange :=
  inferInstanceAs (Decidable (w.field.declaration.InRange w.value))

/-- Store the value. -/
def perform : Write → Edit width Unit
  | .any f edge reverse value => f.setInt edge reverse value
  | .int f edge reverse value => f.set edge reverse value
  | .flag f edge reverse value => f.set edge reverse value
  | @tag _ _ _ f edge reverse value => f.set edge reverse value

/-- Every kind of write stores the integer of its value. -/
theorem perform_eq_setInt (w : Write) :
    (w.perform : Edit width Unit) = w.field.setInt w.edge w.reverse w.value := by
  cases w with
  | any f edge reverse value => rfl
  | int f edge reverse value => rfl
  | flag f edge reverse value => exact f.set_eq_setInt edge reverse value
  | tag α f edge reverse value => exact f.set_eq_setInt edge reverse value

/-- The refusal of a value out of range. -/
def refusal (w : Write) : Error :=
  .valueOutOfRange w.field.name w.value w.field.declaration.min w.field.declaration.max

/-- A refused write leaves all of storage as it is, the number of allocated edges included. -/
theorem perform_of_not_inRange (w : Write) (h : ¬ w.InRange) (s : EdgeStorage width) :
    w.perform s = .error (.error w.refusal) s := by
  rw [w.perform_eq_setInt]
  exact w.field.setInt_of_not_inRange w.edge w.reverse h s

/-- Perform writes in order, going on after a refused one. The successful writes are kept, the
    latest first. -/
def replay : List Write → List Write × EdgeStorage width → List Write × EdgeStorage width
  | [], run => run
  | w :: ws, (done, s) =>
    match w.perform s with
    | .ok () s' => replay ws (w :: done, s')
    | .error _ s' => replay ws (done, s')

/-- The value of the latest of some writes to an address. -/
def latest (done : List Write) (a : Address) : Option Int :=
  (done.find? fun w => w.address = a).map value

end Write

namespace Layout.Draft

variable {width : Nat} (d : Layout.Draft)

/-- Storage answers every read with the latest of the writes that were done, or with the smallest
    value if there was none. -/
def Holds (done : List Write) (s : EdgeStorage width) : Prop :=
  ∀ f ∈ d.freeze.fields, ∀ edge reverse, f.getInt s edge reverse =
    .ok ((Write.latest done (f.address edge reverse)).getD f.declaration.min)

theorem holds_zeroed (hwidth : d.freeze.intsPerEdge ≤ width) (edges : Nat) :
    d.Holds [] (EdgeStorage.zeroed width edges) := by
  intro f hf edge reverse
  rw [Field.getInt, d.pattern_zeroed hwidth hf edges edge reverse]
  simp [Except.map, Field.decode_zero, Write.latest]

/-- A write in range succeeds in every storage, and shows at its own address only. -/
theorem Holds.perform {d : Layout.Draft} (hwidth : d.freeze.intsPerEdge ≤ width) {w : Write}
    (hw : w.field ∈ d.freeze.fields) (hrange : w.InRange) (s : EdgeStorage width) :
    ∃ s', w.perform s = .ok () s' ∧ ∀ done, d.Holds done s → d.Holds (w :: done) s' := by
  have hfits := w.field.declaration.encode_lt hrange
  obtain ⟨s', hset, hread⟩ := d.pattern_setPattern hwidth hw w.edge w.reverse hfits s
  refine ⟨s', ?_, ?_⟩
  · rw [w.perform_eq_setInt, w.field.setInt_of_inRange w.edge w.reverse hrange]
    exact hset
  · intro done hdone g hg edge reverse
    have hbefore := hdone g hg edge reverse
    have hafter : g.pattern s' edge reverse =
        if w.address = g.address edge reverse then .ok (w.field.declaration.encode w.value)
        else g.pattern s edge reverse := hread g hg edge reverse
    rw [Field.getInt] at hbefore ⊢
    rw [hafter, Write.latest, List.find?_cons]
    by_cases haddress : w.address = g.address edge reverse
    · obtain ⟨heq, -, -⟩ := d.slot_eq_of_address_eq hw hg haddress
      rw [if_pos haddress, decide_eq_true haddress, ← heq]
      simpa [Except.map] using w.field.decode_encode hrange
    · rw [if_neg haddress, decide_eq_false haddress]
      exact hbefore

/-- What one write keeps holds after every run of writes, and a run keeps exactly the writes in
    range. -/
theorem Holds.replay {d : Layout.Draft} (hwidth : d.freeze.intsPerEdge ≤ width) {ws : List Write}
    (hws : ∀ w ∈ ws, w.field ∈ d.freeze.fields) {done : List Write} {s : EdgeStorage width}
    (hdone : d.Holds done s) :
    (Write.replay ws (done, s)).1 = (ws.filter fun w => w.InRange).reverse ++ done ∧
      d.Holds (Write.replay ws (done, s)).1 (Write.replay ws (done, s)).2 := by
  induction ws generalizing done s with
  | nil => exact ⟨rfl, hdone⟩
  | cons w ws ih =>
    have hw := hws w List.mem_cons_self
    have hrest : ∀ w ∈ ws, w.field ∈ d.freeze.fields := fun v hv =>
      hws v (List.mem_cons_of_mem _ hv)
    by_cases hrange : w.InRange
    · obtain ⟨s', hperform, hstep⟩ := Holds.perform hwidth hw hrange s
      obtain ⟨hkept, hholds⟩ := ih hrest (hstep done hdone)
      simp only [Write.replay, hperform]
      refine ⟨?_, hholds⟩
      rw [hkept, List.filter_cons_of_pos (by simpa using hrange), List.reverse_cons,
        List.append_assoc]
      rfl
    · have hperform := w.perform_of_not_inRange hrange s
      simp only [Write.replay, hperform]
      rw [List.filter_cons_of_neg (by simpa using hrange)]
      exact ih hrest hdone

/-- Two values of a layout are one cell only for one field on one edge, and a field that has two
    directions keeps them apart. -/
theorem address_eq_iff {f g : Field} (hf : f ∈ d.freeze.fields) (hg : g ∈ d.freeze.fields)
    (edge other : Nat) (reverse reverse' : Bool) :
    f.address edge reverse = g.address other reverse' ↔
      f = g ∧ edge = other ∧ (f.declaration.twoDirections = true → reverse = reverse') := by
  constructor
  · intro haddress
    obtain ⟨rfl, -, hedge⟩ := d.slot_eq_of_address_eq hf hg haddress
    refine ⟨rfl, hedge, fun htwo => ?_⟩
    simpa [Field.address, htwo] using congrArg Address.backward haddress
  · rintro ⟨rfl, rfl, hreverse⟩
    cases htwo : f.declaration.twoDirections with
    | false => simp [Field.address, htwo]
    | true => rw [hreverse htwo]

/-- Storage of a layout is a map from cells to integers. After any writes, started from zeroed
    storage at least as wide as the layout, every cell reads as the latest successful write to it or
    as the smallest value, and flags and tag values read as decoded from that. A write succeeds
    exactly if its value is in range, and otherwise changes nothing. -/
theorem replay_refines_map (hwidth : d.freeze.intsPerEdge ≤ width) (edges : Nat) (ws : List Write)
    (hws : ∀ w ∈ ws, w.field ∈ d.freeze.fields) {done : List Write} {s : EdgeStorage width}
    (hrun : Write.replay ws ([], EdgeStorage.zeroed width edges) = (done, s)) :
    done.reverse = ws.filter (fun w => w.InRange) ∧
    (∀ f ∈ d.freeze.fields, ∀ edge reverse,
      f.getInt s edge reverse =
        .ok ((Write.latest done (f.address edge reverse)).getD f.declaration.min)) ∧
    (∀ f : IntField, f.field ∈ d.freeze.fields → ∀ edge reverse,
      f.get s edge reverse =
        .ok ((Write.latest done (f.field.address edge reverse)).getD f.field.declaration.min)) ∧
    (∀ f : BooleanField, f.field ∈ d.freeze.fields → ∀ edge reverse,
      f.get s edge reverse =
        .ok ((Write.latest done (f.field.address edge reverse)).elim false fun n => n ≠ 0)) ∧
    (∀ (α : Type) [DecidableEq α] [TagEnum α] (f : EnumField α), f.field ∈ d.freeze.fields →
      ∀ edge reverse, f.get s edge reverse =
        .ok ((Write.latest done (f.field.address edge reverse)).elim TagEnum.missing
          fun n => TagEnum.ofOrdinal n.toNat)) ∧
    (∀ f ∈ d.freeze.fields, ∀ g ∈ d.freeze.fields, ∀ edge other reverse reverse',
      f.address edge reverse = g.address other reverse' ↔
        f = g ∧ edge = other ∧ (f.declaration.twoDirections = true → reverse = reverse')) ∧
    (∀ w ∈ ws, ∀ t : EdgeStorage width,
      (w.InRange → ∃ t', w.perform t = .ok () t') ∧
      (¬ w.InRange → w.perform t = .error (.error w.refusal) t)) := by
  obtain ⟨hdone, hholds⟩ := Holds.replay hwidth hws (d.holds_zeroed hwidth edges)
  simp only [hrun, List.append_nil] at hdone hholds
  refine ⟨?_, hholds, fun f hf => hholds f.field hf, ?_, ?_, ?_, ?_⟩
  · rw [hdone, List.reverse_reverse]
  · intro f hf edge reverse
    rw [f.get_eq_getInt, hholds f.field hf edge reverse, f.min_eq]
    cases Write.latest done (f.field.address edge reverse) <;> rfl
  · intro α _ _ f hf edge reverse
    rw [f.get_eq_getInt, hholds f.field hf edge reverse, f.min_eq]
    cases Write.latest done (f.field.address edge reverse) <;> rfl
  · intro f hf g hg edge other reverse reverse'
    exact d.address_eq_iff hf hg edge other reverse reverse'
  · intro w hw t
    refine ⟨fun hrange => ?_, fun hrange => w.perform_of_not_inRange hrange t⟩
    obtain ⟨t', hperform, -⟩ := Holds.perform hwidth (hws w hw) hrange t
    exact ⟨t', hperform⟩

private def levels : Declaration :=
  ⟨"levels", 30, -3, true, .int, by decide, by decide, by decide, by decide, by decide, by decide,
    by decide, trivial⟩

private def bridge : Declaration :=
  ⟨"bridge", 1, 0, false, .boolean, by decide, by decide, by decide, by decide, by decide,
    by decide, by decide, ⟨rfl, rfl⟩⟩

private def levelsAndBridge : Layout.Draft := ⟨[levels, bridge], by decide⟩

private def levelsField : Field := ⟨levels, ⟨0, 0, 30⟩, some ⟨1, 0, 30⟩⟩

private def bridgeField : BooleanField := ⟨⟨bridge, ⟨1, 30, 1⟩, none⟩, rfl⟩

private def levelWrites : List Write :=
  [.any levelsField 4 false 7, .any levelsField 4 true (-4), .flag bridgeField 4 true true,
    .any levelsField 4 false (-2)]

private def levelStorage : EdgeStorage 3 :=
  (Write.replay levelWrites ([], EdgeStorage.zeroed 3 1)).2

/-- One write of four is refused, and storage is wider than the layout asks for. -/
theorem replay_refines_map_levels :
    levelsField.getInt levelStorage 4 false = .ok (-2) ∧
    levelsField.getInt levelStorage 4 true = .ok (-3) ∧
    bridgeField.get levelStorage 4 false = .ok true ∧
    (Write.any levelsField 4 true (-4)).perform levelStorage =
      .error (.error (.valueOutOfRange "levels" (-4) (-3) 1073741820)) levelStorage := by
  have hwidth : levelsAndBridge.freeze.intsPerEdge ≤ 3 := by decide
  have hfields : levelsAndBridge.freeze.fields = [levelsField, bridgeField.field] := rfl
  have hlevels : levelsField ∈ levelsAndBridge.freeze.fields := by simp [hfields]
  have hbridge : bridgeField.field ∈ levelsAndBridge.freeze.fields := by simp [hfields]
  have hws : ∀ w ∈ levelWrites, w.field ∈ levelsAndBridge.freeze.fields := by
    simp [levelWrites, Write.field, hlevels, hbridge]
  obtain ⟨-, hget, -, hflag, -, -, hsucceeds⟩ :=
    levelsAndBridge.replay_refines_map hwidth 1 levelWrites hws rfl
  refine ⟨hget _ hlevels 4 false, hget _ hlevels 4 true, hflag _ hbridge 4 false, ?_⟩
  exact (hsucceeds _ (by simp [levelWrites]) levelStorage).2 (by decide)

end Layout.Draft

end EdgeAttributes
