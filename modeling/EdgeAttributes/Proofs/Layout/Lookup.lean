import EdgeAttributes.Layout
import Mathlib

namespace EdgeAttributes

namespace Declaration

theorem kind_of_make {name : String} {bits : Nat} {min : Int32} {twoDirections : Bool} {kind : Kind}
    {kind_fits : kind.Fits bits min.toInt} {d : Declaration}
    (h : make name bits min twoDirections kind kind_fits = .ok d) : d.kind = kind := by
  obtain ⟨-, -, -, -, hkind⟩ := make_eq_ok h
  exact hkind

theorem boolean_eq_ok {name : String} {twoDirections : Bool} {d : Declaration}
    (h : boolean name twoDirections = .ok d) : d.name = name ∧ d.twoDirections = twoDirections := by
  obtain ⟨hname, -, -, htwo, -⟩ := make_eq_ok h
  exact ⟨hname, htwo⟩

end Declaration

namespace Field

variable {f : Field}

theorem field_of_asBoolean {b : BooleanField} (h : f.asBoolean = .ok b) : b.field = f := by
  unfold asBoolean at h
  split at h
  · cases h
    rfl
  · cases h

theorem field_of_asDecimal {b : DecimalField} (h : f.asDecimal = .ok b) : b.field = f := by
  unfold asDecimal at h
  split at h
  · cases h
    rfl
  · cases h

theorem field_of_asEnum {α : Type} [DecidableEq α] [TagEnum α] {b : EnumField α}
    (h : f.asEnum α = .ok b) : b.field = f := by
  unfold asEnum at h
  split at h
  · split at h
    · cases h
      rfl
    · cases h
  · cases h

theorem asInt_of_kind (h : f.kind = .int) : f.asInt = .ok ⟨f, h⟩ := dif_pos h

theorem asInt_of_kind_ne (h : f.kind ≠ .int) : f.asInt = .error (f.mismatch Kind.int.label) :=
  dif_neg h

theorem asBoolean_of_kind_ne (h : f.kind ≠ .boolean) :
    f.asBoolean = .error (f.mismatch Kind.boolean.label) := dif_neg h

theorem asDecimal_of_kind_ne (h : ∀ factor, f.kind ≠ .decimal factor) :
    f.asDecimal = .error (f.mismatch (Kind.decimal 1).label) := by
  unfold asDecimal
  split
  · next factor hkind => exact absurd hkind (h factor)
  · rfl

/-- A field of other tag values is refused with the title of those that were asked for. -/
theorem asEnum_of_kind_enum {α : Type} [DecidableEq α] [TagEnum α] {shape : EnumShape}
    (h : f.kind = .enum shape) (hne : shape ≠ TagEnum.shape α) :
    f.asEnum α = .error (f.mismatch (Kind.enum (TagEnum.shape α)).describe) := by
  unfold asEnum
  split
  · next other hother =>
    obtain rfl : shape = other := Kind.enum.inj (h.symm.trans hother)
    exact dif_neg hne
  · next hother => exact absurd h (hother shape)

theorem asEnum_of_kind_ne {α : Type} [DecidableEq α] [TagEnum α]
    (h : ∀ shape, f.kind ≠ .enum shape) :
    f.asEnum α = .error (f.mismatch (Kind.enum (TagEnum.shape α)).label) := by
  unfold asEnum
  split
  · next shape hkind => exact absurd hkind (h shape)
  · rfl

theorem asBoolean_of_kind (h : f.kind = .boolean) : f.asBoolean = .ok ⟨f, h⟩ := dif_pos h

theorem asDecimal_of_kind {factor : Float} (h : f.kind = .decimal factor) :
    f.asDecimal = .ok ⟨f, factor, h⟩ := by
  unfold asDecimal
  split
  · next other hother =>
    obtain rfl : factor = other := Kind.decimal.inj (h.symm.trans hother)
    rfl
  · next hother => exact absurd h (hother factor)

theorem asEnum_of_kind {α : Type} [DecidableEq α] [TagEnum α]
    (h : f.kind = .enum (TagEnum.shape α)) : f.asEnum α = .ok ⟨f, h⟩ := by
  unfold asEnum
  split
  · next shape hshape =>
    obtain rfl : TagEnum.shape α = shape := Kind.enum.inj (h.symm.trans hshape)
    exact dif_pos rfl
  · next hother => exact absurd h (hother _)

end Field

namespace Layout

variable {l : Layout} {name : String}

theorem contains_iff : l.contains name = true ↔ name ∈ l.names := by
  rw [contains, SortedMap.contains, Option.isSome_iff_exists, names, List.mem_iff_getElem?]
  exact exists_congr fun i => l.indexed name i

section Measures

variable [Measures]

theorem field_eq_ok {f : Field} (h : l.field name = .ok f) : f ∈ l.fields ∧ f.name = name := by
  unfold field at h
  split at h
  · next i hi =>
    cases h
    have hname := (l.indexed name i).1 hi
    rw [List.getElem?_map, List.getElem?_eq_getElem (lt_of_index hi)] at hname
    exact ⟨List.get_mem _ _, Option.some.inj hname⟩
  · cases h

theorem exists_field_eq_ok (hname : name ∈ l.names) : ∃ f, l.field name = .ok f := by
  unfold field
  split
  · next i hi => exact ⟨_, rfl⟩
  · next hnone =>
    obtain ⟨i, hi⟩ := List.mem_iff_getElem?.1 hname
    exact absurd ((l.indexed name i).2 hi) (by simp [hnone])

/-- Names are distinct, so the field of a name is the one that is found. -/
theorem field_eq_ok_iff {f : Field} : l.field name = .ok f ↔ f ∈ l.fields ∧ f.name = name := by
  refine ⟨field_eq_ok, ?_⟩
  rintro ⟨hf, rfl⟩
  obtain ⟨i, hi, rfl⟩ := List.getElem_of_mem hf
  have hindex : l.index.get? l.fields[i].name = some i := by
    rw [l.indexed, List.getElem?_map, List.getElem?_eq_getElem hi, Option.map_some]
  unfold field
  split
  · next j hj =>
    obtain rfl : i = j := Option.some.inj (hindex.symm.trans hj)
    rfl
  · next hnone => exact absurd hindex (by simp [hnone])

theorem mem_names_iff : name ∈ l.names ↔ ∃ f, l.field name = .ok f := by
  refine ⟨exists_field_eq_ok, ?_⟩
  rintro ⟨f, hf⟩
  obtain ⟨hmem, rfl⟩ := field_eq_ok hf
  exact List.mem_map_of_mem hmem

theorem field_of_notMem (hname : name ∉ l.names) : l.field name =
    .error (.encodedValueNotFound name (Suggestion.suggest name l.names)) := by
  unfold field
  split
  · next i hi => exact absurd (List.mem_iff_getElem?.2 ⟨i, (l.indexed name i).1 hi⟩) hname
  · rfl

private theorem view_eq_ok {β : Type} {view : Field → Except Error β} {toField : β → Field}
    (hview : ∀ f b, view f = .ok b → toField b = f) {b : β}
    (h : (l.field name >>= view) = .ok b) : toField b ∈ l.fields ∧ (toField b).name = name := by
  cases hfield : l.field name with
  | error e =>
    rw [hfield] at h
    cases h
  | ok f =>
    rw [hfield] at h
    rw [hview f b h]
    exact field_eq_ok hfield

/-- A view that is found is one of a field of the layout, under the name that was asked for. -/
theorem booleanField_eq_ok {b : BooleanField} (h : l.booleanField name = .ok b) :
    b.field ∈ l.fields ∧ b.field.name = name :=
  view_eq_ok (fun _ _ => Field.field_of_asBoolean) h

theorem decimalField_eq_ok {b : DecimalField} (h : l.decimalField name = .ok b) :
    b.field ∈ l.fields ∧ b.field.name = name :=
  view_eq_ok (fun _ _ => Field.field_of_asDecimal) h

theorem enumField_eq_ok {α : Type} [DecidableEq α] [TagEnum α] {b : EnumField α}
    (h : l.enumField α name = .ok b) : b.field ∈ l.fields ∧ b.field.name = name :=
  view_eq_ok (fun _ _ => Field.field_of_asEnum) h

section Kind

variable {f : Field}

/-- A view is found of every field of its kind. -/
theorem booleanField_of_kind (hf : l.field name = .ok f) (hkind : f.kind = .boolean) :
    l.booleanField name = .ok ⟨f, hkind⟩ := by
  rw [booleanField, hf]
  exact Field.asBoolean_of_kind hkind

theorem decimalField_of_kind (hf : l.field name = .ok f) {factor : Float}
    (hkind : f.kind = .decimal factor) : l.decimalField name = .ok ⟨f, factor, hkind⟩ := by
  rw [decimalField, hf]
  exact Field.asDecimal_of_kind hkind

theorem enumField_of_kind {α : Type} [DecidableEq α] [TagEnum α] (hf : l.field name = .ok f)
    (hkind : f.kind = .enum (TagEnum.shape α)) : l.enumField α name = .ok ⟨f, hkind⟩ := by
  rw [enumField, hf]
  exact Field.asEnum_of_kind hkind

end Kind

end Measures

end Layout

end EdgeAttributes
