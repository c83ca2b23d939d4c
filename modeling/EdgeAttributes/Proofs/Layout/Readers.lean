import EdgeAttributes.Proofs.Field.Tags
import EdgeAttributes.Proofs.Layout.Views

namespace EdgeAttributes

-- Powers keep the meaning that they have without any further library.
attribute [local instance (high)] instPowNat

universe u

variable {width : Nat} {s : EdgeStorage width} {edge : Nat} {reverse : Bool}

/-- Whatever is made of a pattern has the text of the pattern if that is so for every pattern. -/
theorem Field.map_pattern_eq_format {β : Type} {f : Field} {read : UInt32 → β} {text : β → String}
    (h : ∀ p, text (read p) = f.render p) :
    ((f.pattern s edge reverse).map read).map text = f.format s edge reverse := by
  rw [Field.format]
  cases f.pattern s edge reverse with
  | error fault => rfl
  | ok p => exact congrArg Except.ok (h p)

theorem IntField.get_text (f : IntField) :
    (f.get s edge reverse).map toString = f.field.format s edge reverse := by
  apply Field.map_pattern_eq_format
  intro p
  rw [Field.render, f.isInt]

theorem BooleanField.get_text (f : BooleanField) :
    (f.get s edge reverse).map toString = f.field.format s edge reverse := by
  apply Field.map_pattern_eq_format
  intro p
  rw [Field.render, f.isBoolean]
  by_cases hp : p = 0 <;> simp [hp] <;> rfl

theorem DecimalField.get_text (f : DecimalField) :
    (f.get s edge reverse).map Decimal.text = f.field.format s edge reverse := by
  apply Field.map_pattern_eq_format
  intro p
  rw [Field.render, f.isDecimal]

theorem EnumField.get_text {α : Type} [DecidableEq α] [TagEnum α] (f : EnumField α) :
    (f.get s edge reverse).map TagEnum.spelling = f.field.format s edge reverse := by
  apply Field.map_pattern_eq_format
  intro p
  rw [f.render_eq]

variable {ι : Type u} (α : ι → Type) [∀ set, DecidableEq (α set)] [∀ set, TagEnum (α set)]

namespace View

/-- The text of what a view of a kind reads. The look-up of the view can be refused, and storage can
    be too narrow for its field. -/
def readText (v : View ι) (l : Layout) (name : String) (s : EdgeStorage width) (edge : Nat)
    (reverse : Bool) : Except Error (Except Fault String) :=
  match v with
  | int => (l.intField name).map fun f => (f.get s edge reverse).map toString
  | boolean => (l.booleanField name).map fun f => (f.get s edge reverse).map toString
  | decimal => (l.decimalField name).map fun f => (f.get s edge reverse).map Decimal.text
  | enum set => (l.enumField (α set) name).map fun f => (f.get s edge reverse).map TagEnum.spelling

/-- The text that stands for the number which the bits of a slot make, for values of a kind. A
    number that no tag value has stands for the missing one. -/
inductive Shows (d : Declaration) (n : Nat) : View ι → String → Prop
  | int : Shows d n int (toString (d.min + n))
  | no (h : n = 0) : Shows d n boolean "false"
  | yes (h : n ≠ 0) : Shows d n boolean "true"
  | decimal {factor : Float} (h : d.kind = .decimal factor) :
    Shows d n decimal (Decimal.text ((UInt32.ofNat n).toFloat * factor))
  | value {set : ι} (value : α set) (h : TagEnum.ordinal value = n) :
    Shows d n (enum set) (TagEnum.spelling value)
  | unused {set : ι} (h : ∀ value : α set, TagEnum.ordinal value ≠ n) :
    Shows d n (enum set) (TagEnum.spelling (TagEnum.missing : α set))

variable {α}

private theorem map_eq_map_field {β γ : Type} {lookup : Except Error β} {toField : β → Field}
    {read : β → γ} {format : Field → γ} (h : ∀ f, read f = format (toField f)) :
    lookup.map read = (lookup.map toField).map format := by
  cases lookup with
  | error e => rfl
  | ok f => exact congrArg Except.ok (h f)

/-- A view reads what the field behind it writes out, whatever storage holds. -/
theorem readText_eq (v : View ι) (l : Layout) (name : String) :
    v.readText α l name s edge reverse =
      (v.find α l name).map fun f => f.format s edge reverse := by
  cases v with
  | int => exact map_eq_map_field IntField.get_text
  | boolean => exact map_eq_map_field BooleanField.get_text
  | decimal => exact map_eq_map_field DecimalField.get_text
  | enum set => exact map_eq_map_field EnumField.get_text

section Agreement

variable {v : View ι} {l : Layout} {f : Field}

theorem readText_of_holds (hfield : l.field f.name = .ok f) (hv : v.Holds α f.kind) :
    v.readText α l f.name s edge reverse = .ok (f.format s edge reverse) := by
  rw [readText_eq, find_eq, hfield]
  change Except.map _ (v.ofField α f) = _
  rw [ofField_of_holds hv]
  rfl

theorem eq_format_of_readText (hfield : l.field f.name = .ok f) {text : Except Fault String}
    (h : v.readText α l f.name s edge reverse = .ok text) : text = f.format s edge reverse := by
  by_cases hv : v.Holds α f.kind
  · exact Except.ok.inj (h.symm.trans (readText_of_holds hfield hv))
  · rw [readText_eq, find_eq, hfield] at h
    change Except.map _ (v.ofField α f) = _ at h
    rw [ofField_of_not_holds hv] at h
    cases h

theorem shows_render (hv : v.Holds α f.kind) {p : UInt32} (hp : p ∈ f.Patterns) :
    v.Shows α f.declaration p.toNat (f.render p) := by
  cases v with
  | int =>
    have hkind : f.kind = .int := hv
    rw [Field.render, hkind, Field.decode_eq hp, Int.add_comm]
    exact .int
  | boolean =>
    have hkind : f.kind = .boolean := hv
    rw [Field.render, hkind]
    by_cases hzero : p = 0
    · rw [if_neg (not_not.2 hzero)]
      exact .no (congrArg UInt32.toNat hzero)
    · rw [if_pos hzero]
      exact .yes fun h => hzero (UInt32.toNat_inj.1 h)
  | decimal =>
    obtain ⟨factor, hkind⟩ := hv
    have hshows : Shows α f.declaration p.toNat decimal _ := .decimal hkind
    rw [UInt32.ofNat_toNat] at hshows
    rwa [Field.render, hkind]
  | enum set =>
    have hrender := EnumField.render_eq (⟨f, hv⟩ : EnumField (α set)) p
    rw [hrender]
    by_cases hnone : ∀ value : α set, TagEnum.ordinal value ≠ p.toNat
    · rw [TagEnum.ofOrdinal_of_ne hnone]
      exact .unused hnone
    · obtain ⟨value, hvalue⟩ := not_forall_not.1 hnone
      have hback : (TagEnum.ofOrdinal p.toNat : α set) = value := by
        rw [← hvalue, TagEnum.ofOrdinal_ordinal]
      rw [hback]
      exact .value value hvalue

/-- Storage that has the word of a slot gives the text for the bits of the slot. -/
theorem shows_format (hplaced : f.Placed) (hv : v.Holds α f.kind)
    (hindex : (f.slot reverse).index < width) (s : EdgeStorage width) (edge : Nat) :
    ∃ word text, s.word edge (f.slot reverse).index = .ok word ∧
      f.format s edge reverse = .ok text ∧
      v.Shows α f.declaration
        (word.toNat / 2 ^ (f.slot reverse).shift % 2 ^ (f.slot reverse).bits) text := by
  obtain ⟨p, hp, hpattern⟩ := hplaced.exists_pattern hindex s edge
  obtain rfl : (f.slot reverse).extract (s.cell edge)[(f.slot reverse).index] = p :=
    Except.ok.inj ((f.pattern_eq s edge reverse hindex).symm.trans hpattern)
  refine ⟨_, _, s.word_eq edge hindex, by rw [Field.format, hpattern]; rfl, ?_⟩
  rw [← Slot.toNat_extract (hplaced.inside reverse)]
  exact shows_render hv hp

end Agreement

end View

variable {α}

/-- What is read through views and what is written out agree, whatever storage holds and whoever
    wrote it. Every field of a frozen layout is seen as the kind of value it was declared for, and
    the text of what that view reads is what the field writes out, with the same fault if storage is
    too narrow; no other view reads anything else. Storage that has the words of the layout is read
    without fault, and the text is the one for the number that the bits of the slot make, in the
    word of the slot that the direction has. -/
theorem Layout.Draft.readers_agree {decls : List Declaration}
    (hdecls : ∀ decl ∈ decls, ∃ v : View ι, decl.DeclaredAs α v) :
    let l := (stateAfterAll queue Draft.empty decls).freeze
    ∀ f ∈ l.fields, ∃ v : View ι, f.declaration.DeclaredAs α v ∧
      ∀ (width : Nat) (s : EdgeStorage width) (edge : Nat) (reverse : Bool),
        v.readText α l f.name s edge reverse = .ok (f.format s edge reverse) ∧
        (∀ (w : View ι) text, w.readText α l f.name s edge reverse = .ok text →
          text = f.format s edge reverse) ∧
        (l.intsPerEdge ≤ width → ∃ word text, s.word edge (f.slot reverse).index = .ok word ∧
          f.format s edge reverse = .ok text ∧
          v.Shows α f.declaration
            (word.toNat / 2 ^ (f.slot reverse).shift % 2 ^ (f.slot reverse).bits) text) := by
  intro l f hf
  have hdeclared : f.declaration ∈ Draft.empty.accepted decls := by
    have hmem := List.mem_map_of_mem (f := Field.declaration) hf
    rwa [map_declaration_freeze, Draft.declarations_stateAfterAll] at hmem
  obtain ⟨v, hv⟩ := hdecls _ ((Draft.empty.accepted_sublist decls).mem hdeclared)
  have hfield : l.field f.name = .ok f := field_eq_ok_iff.2 ⟨hf, rfl⟩
  exact ⟨v, hv, fun width s edge reverse => ⟨View.readText_of_holds hfield hv.holds,
    fun w text => View.eq_format_of_readText hfield, fun hwidth =>
      View.shows_format (Field.placed_of_mem hf) hv.holds
        ((slot_index_lt _ hf reverse).trans_le hwidth) s edge⟩⟩

private def accessBothWays : Declaration :=
  (Declaration.enum RoadAccess true).toOption.get rfl

private def signedLayer : Declaration :=
  (Declaration.signedInt "layer" 3 (-3) false).toOption.get rfl

/-- Storage whose word no view wrote: a pattern that is no tag value, one that is, the least
    integer, and ones where there is no slot. -/
private def strayStorage : EdgeStorage 1 := ⟨#[#v[0xFFFFF83F]], 1, Nat.le_refl 1⟩

/-- All four bits of a tag value are set forward, which stands for none, and garbage lies around the
    three values. -/
theorem Layout.Draft.readers_agree_stray :
    let l := (stateAfterAll queue Draft.empty [accessBothWays, signedLayer]).freeze
    let read (v : View Unit) := v.readText (fun _ => RoadAccess) l
    read (.enum ()) "road_access" strayStorage 0 false = .ok (.ok "missing") ∧
    read (.enum ()) "road_access" strayStorage 0 true = .ok (.ok "customers") ∧
    read .int "layer" strayStorage 0 true = .ok (.ok "-3") := by
  intro l read
  have hdecls : ∀ decl ∈ [accessBothWays, signedLayer],
      ∃ v : View Unit, decl.DeclaredAs (fun _ => RoadAccess) v := by
    simp only [List.forall_mem_cons, List.not_mem_nil, false_implies, implies_true, and_true]
    have hlayer : Declaration.signedInt "layer" 3 (-3) false = .ok signedLayer := rfl
    exact ⟨⟨.enum (), .enum rfl⟩, ⟨.int, .int hlayer⟩⟩
  have hfields : l.fields =
      [⟨accessBothWays, ⟨0, 0, 4⟩, some ⟨0, 4, 4⟩⟩, ⟨signedLayer, ⟨0, 8, 3⟩, none⟩] := rfl
  have hagree := readers_agree hdecls
  obtain ⟨v, hv, haccess⟩ := hagree _ (hfields ▸ List.mem_cons_self)
  obtain ⟨w, hw, hlayer⟩ := hagree _ (hfields ▸ List.mem_cons_of_mem _ List.mem_cons_self)
  have hidentity : Function.Injective fun _ : Unit => TagEnum.identity RoadAccess :=
    Function.injective_of_subsingleton _
  obtain rfl : .enum () = v := hv.holds.unique hidentity rfl
  obtain rfl : .int = w := hw.holds.unique hidentity rfl
  exact ⟨(haccess 1 strayStorage 0 false).1, (haccess 1 strayStorage 0 true).1,
    (hlayer 1 strayStorage 0 true).1⟩

end EdgeAttributes
