import EdgeAttributes.Attribute.RoadAccess
import EdgeAttributes.Proofs.Field.Exactness
import EdgeAttributes.Proofs.Storage.Frame

namespace EdgeAttributes

-- Powers keep the meaning that they have without any further library.
attribute [local instance (high)] instPowNat

/-- No narrower width than the one for a number of values has as many patterns, unless it has no bit
    at all. -/
theorem isLeast_bitsForCount (count : Nat) :
    IsLeast {bits | 1 ≤ bits ∧ count ≤ 2 ^ bits} (bitsForCount count) := by
  have hfits := le_two_pow_bitsForCount count
  rw [bitsForCount] at hfits ⊢
  split at hfits
  · next hfew =>
    rw [if_pos hfew]
    exact ⟨⟨Nat.le_refl 1, hfits⟩, fun bits hbits => hbits.1⟩
  · next hmany =>
    rw [if_neg hmany]
    refine ⟨⟨Nat.succ_pos _, hfits⟩, fun bits hbits => ?_⟩
    have hhigh : 2 ^ (count - 1).log2 ≤ count - 1 := Nat.log2_self_le (by omega)
    have hpatterns : count ≤ 2 ^ bits := hbits.2
    have hlt : 2 ^ (count - 1).log2 < 2 ^ bits := by omega
    exact (Nat.pow_lt_pow_iff_right Nat.one_lt_two).1 hlt

/-- A width that may be declared is enough for exactly the counts up to its number of patterns. -/
theorem bitsForCount_le_iff {count bits : Nat} (hbits : 1 ≤ bits) :
    bitsForCount count ≤ bits ↔ count ≤ 2 ^ bits := by
  constructor
  · intro hle
    exact (le_two_pow_bitsForCount count).trans (Nat.pow_le_pow_right Nat.two_pos hle)
  · exact fun hle => (isLeast_bitsForCount count).2 ⟨hbits, hle⟩

namespace TagEnum

variable {α : Type} [DecidableEq α] [TagEnum α]

/-- A number that is no ordinal stands for the missing value. -/
theorem ofOrdinal_of_ne {n : Nat} (h : ∀ value : α, ordinal value ≠ n) :
    (ofOrdinal n : α) = missing := by
  rw [ofOrdinal]
  cases hfound : (values α)[n]? with
  | none => rfl
  | some value =>
    obtain ⟨hlt, hvalue⟩ := List.getElem?_eq_some_iff.1 hfound
    have hordinal : ordinal value = n := by
      rw [← hvalue]
      exact List.Nodup.idxOf_getElem nodup n hlt
    exact absurd hordinal (h value)

end TagEnum

namespace Declaration

/-- Tag values can be declared if their key is a name and 31 bits count them all. -/
theorem enum_isOk_iff {α : Type} [DecidableEq α] [TagEnum α] {twoDirections : Bool} :
    (enum α twoDirections).isOk ↔ TagEnum.key α ≠ "" ∧
      (∀ c ∈ (TagEnum.key α).toList, ('a' ≤ c ∧ c ≤ 'z') ∨ ('0' ≤ c ∧ c ≤ '9') ∨ c = '_') ∧
      (TagEnum.values α).length ≤ 2 ^ 31 := by
  have hchars : (TagEnum.key α).toList.all isNameChar ↔
      ∀ c ∈ (TagEnum.key α).toList, ('a' ≤ c ∧ c ≤ 'z') ∨ ('0' ≤ c ∧ c ≤ '9') ∨ c = '_' := by
    simp only [List.all_eq_true, isNameChar_iff]
  have hpos := (isLeast_bitsForCount (TagEnum.values α).length).1.1
  have hwidth : bitsForCount (TagEnum.values α).length ≤ 31 ↔ (TagEnum.values α).length ≤ 2 ^ 31 :=
    bitsForCount_le_iff (by omega)
  have hzero : (0 : Int32).toInt = 0 := rfl
  refine make_isOk_iff.trans ?_
  rw [hchars, hzero, maxBits]
  constructor
  · rintro ⟨hname, hall, ⟨-, hle⟩, -⟩
    exact ⟨hname, hall, hwidth.1 hle⟩
  · rintro ⟨hname, hall, hcount⟩
    have hle := hwidth.2 hcount
    have hpow : 2 ^ bitsForCount (TagEnum.values α).length ≤ 2 ^ 31 :=
      Nat.pow_le_pow_right Nat.two_pos hle
    have hcast := Int.natCast_pow 2 (bitsForCount (TagEnum.values α).length)
    rw [Nat.cast_ofNat] at hcast
    exact ⟨hname, hall, ⟨hpos, hle⟩, by omega, by omega⟩

end Declaration

namespace EnumField

variable {α : Type} [DecidableEq α] [TagEnum α] {f : EnumField α} {width : Nat}
  {s : EdgeStorage width} {edge : Nat} {reverse : Bool} {p : UInt32}

theorem toNat_ordinal (f : EnumField α) (value : α) :
    (UInt32.ofNat (TagEnum.ordinal value)).toNat = TagEnum.ordinal value := by
  rw [← f.encode_ordinal, f.field.declaration.toNat_encode (f.ordinal_inRange value), f.min_eq,
    Int.sub_zero, Int.toNat_natCast]

theorem ordinal_mem_patterns (f : EnumField α) (value : α) :
    UInt32.ofNat (TagEnum.ordinal value) ∈ f.field.Patterns := by
  rw [← f.encode_ordinal]
  exact f.field.declaration.encode_lt (f.ordinal_inRange value)

/-- The text of a pattern is the spelling of the value that the pattern reads as, also where it is
    no ordinal: the list of spellings and the values are searched at the same place, and begin with
    the missing value. -/
theorem render_eq (f : EnumField α) (p : UInt32) :
    f.field.render p = TagEnum.spelling (TagEnum.ofOrdinal p.toNat : α) := by
  simp only [Field.render, f.isEnum, TagEnum.shape, TagEnum.spellings, TagEnum.ofOrdinal,
    List.getElem?_map]
  cases (TagEnum.values α)[p.toNat]? with
  | none => rfl
  | some value => rfl

/-- What is read and what is written out of one pattern. -/
theorem get_and_format (h : f.field.pattern s edge reverse = .ok p) {value : α}
    (hvalue : TagEnum.ofOrdinal p.toNat = value) :
    f.get s edge reverse = .ok value ∧
      f.field.format s edge reverse = .ok (TagEnum.spelling value) := by
  constructor
  · rw [get, h, ← hvalue]
    rfl
  · rw [Field.format, h, ← hvalue, ← f.render_eq]
    rfl

/-- How the tag values of a field are kept in storage that has the word of its slot. Every ordinal
    fits the slot. A value that is stored is read back and its spelling is the text of the slot,
    while no bit outside of the slot changes. Whatever pattern the slot holds, an ordinal reads as
    its value, and anything else as the missing one. -/
structure KeepsTags (f : EnumField α) (s : EdgeStorage width) (edge : Nat) (reverse : Bool) :
    Prop where
  fits : ∀ value : α, TagEnum.ordinal value < 2 ^ (f.field.slot reverse).bits
  set : ∀ value : α, ∃ s', f.set edge reverse value s = .ok () s' ∧
    f.get s' edge reverse = .ok value ∧
    f.field.format s' edge reverse = .ok (TagEnum.spelling value) ∧
    EdgeStorage.AgreeOutside edge [f.field.slot reverse] s s'
  get : ∃ p ∈ f.field.Patterns, f.field.pattern s edge reverse = .ok p ∧
    (∀ value : α, TagEnum.ordinal value = p.toNat → f.get s edge reverse = .ok value ∧
      f.field.format s edge reverse = .ok (TagEnum.spelling value)) ∧
    ((∀ value : α, TagEnum.ordinal value ≠ p.toNat) →
      f.get s edge reverse = .ok TagEnum.missing ∧
      f.field.format s edge reverse = .ok (TagEnum.spelling (TagEnum.missing : α)))

theorem keepsTags (hplaced : f.field.Placed) (hindex : (f.field.slot reverse).index < width)
    (s : EdgeStorage width) (edge : Nat) : f.KeepsTags s edge reverse := by
  obtain ⟨p, hp, hpattern⟩ := hplaced.exists_pattern hindex s edge
  refine ⟨fun value => ?_, fun value => ?_, p, hp, hpattern, fun value hvalue => ?_,
    fun hnone => ?_⟩
  · have hfits : _ < 2 ^ f.field.declaration.bits := f.ordinal_mem_patterns value
    rwa [f.toNat_ordinal value, ← hplaced.sized.bits_slot reverse] at hfits
  · obtain ⟨s', hset, hread⟩ :=
      hplaced.pattern_setPattern hindex s edge (f.ordinal_mem_patterns value)
    have hback : (TagEnum.ofOrdinal (UInt32.ofNat (TagEnum.ordinal value)).toNat : α) = value := by
      rw [f.toNat_ordinal value, TagEnum.ofOrdinal_ordinal]
    obtain ⟨hget, hformat⟩ := get_and_format hread hback
    have hframe : Edit.Moves (f.set edge reverse value : Edit width Unit)
        (EdgeStorage.AgreeOutside edge [f.field.slot reverse]) :=
      f.field.setPattern_moves edge reverse _ (hplaced.inside reverse) hindex
    exact ⟨s', hset, hget, hformat, hframe.keeps.of_eq_ok hset⟩
  · exact get_and_format hpattern (by rw [← hvalue, TagEnum.ofOrdinal_ordinal])
  · exact get_and_format hpattern (TagEnum.ofOrdinal_of_ne hnone)

/-- Tag values are kept at the least width that counts them. That width is worked out for any number
    of values; a set is declared exactly if its key is a name and 31 bits are enough for it, in one
    direction or two; and wherever the declaration is placed, each direction of each edge keeps the
    values of the set, its text agrees with what is read, and patterns that no value has are missing
    by both. -/
theorem tags_exact :
    (∀ count, IsLeast {bits | 1 ≤ bits ∧ count ≤ 2 ^ bits} (bitsForCount count)) ∧
    ∀ (α : Type) [DecidableEq α] [TagEnum α] (twoDirections : Bool),
      ((Declaration.enum α twoDirections).isOk ↔ TagEnum.key α ≠ "" ∧
        (∀ c ∈ (TagEnum.key α).toList, ('a' ≤ c ∧ c ≤ 'z') ∨ ('0' ≤ c ∧ c ≤ '9') ∨ c = '_') ∧
        (TagEnum.values α).length ≤ 2 ^ 31) ∧
      ∀ d, Declaration.enum α twoDirections = .ok d →
        d.name = TagEnum.key α ∧ d.bits = bitsForCount (TagEnum.values α).length ∧
        d.twoDirections = twoDirections ∧
        ∀ ds, ∀ field ∈ (Cursor.start.placeAll ds).1, field.declaration = d →
          ∃ f : EnumField α, field.asEnum α = .ok f ∧ f.field = field ∧
            ∀ width (s : EdgeStorage width) edge reverse, (field.slot reverse).index < width →
              f.KeepsTags s edge reverse := by
  refine ⟨isLeast_bitsForCount, fun α _ _ twoDirections => ⟨Declaration.enum_isOk_iff, ?_⟩⟩
  intro d hd
  obtain ⟨hname, hbits, -, htwo, hkind⟩ := Declaration.make_eq_ok hd
  refine ⟨hname, hbits, htwo, fun ds field hfield hdecl => ?_⟩
  have henum : field.kind = .enum (TagEnum.shape α) := by
    rw [Field.kind, hdecl, hkind]
  refine ⟨⟨field, henum⟩, Field.asEnum_of_kind henum, rfl, fun width s edge reverse hindex => ?_⟩
  exact keepsTags (Field.placed_of_mem hfield) hindex s edge

/-- The last kind of access is read as stored, and so is its name. The pattern behind it, which
    stands for no kind, reads as none. -/
theorem tags_exact_roadAccess : ∃ d, Declaration.enum RoadAccess true = .ok d ∧ d.bits = 4 ∧
    ∃ field ∈ (Cursor.start.placeAll [d]).1, ∃ f : EnumField RoadAccess,
      field.asEnum RoadAccess = .ok f ∧
      (∃ s', f.set 3 true .privateOnly (EdgeStorage.zeroed 1 0) = .ok () s' ∧
        f.get s' 3 true = .ok .privateOnly ∧ f.field.format s' 3 true = .ok "private") ∧
      ∃ s', field.setPattern 3 true 12 (EdgeStorage.zeroed 1 0) = .ok () s' ∧
        f.get s' 3 true = .ok .missing ∧ f.field.format s' 3 true = .ok "missing" := by
  have hdeclare : ∃ d, Declaration.enum RoadAccess true = .ok d ∧
      ((Cursor.start.place d).1.slot true).index = 0 ∧
      ∃ s', (Cursor.start.place d).1.setPattern 3 true 12 (EdgeStorage.zeroed 1 0) = .ok () s' ∧
        (Cursor.start.place d).1.pattern s' 3 true = .ok 12 :=
    ⟨_, rfl, rfl, _, rfl, rfl⟩
  obtain ⟨d, hd, hindex, t, hstore, hread⟩ := hdeclare
  obtain ⟨-, hbits, -, hplaced⟩ := (tags_exact.2 RoadAccess true).2 d hd
  have hmem : (Cursor.start.place d).1 ∈ (Cursor.start.placeAll [d]).1 := List.mem_singleton_self _
  obtain ⟨f, hf, hfield, hkeeps⟩ := hplaced [d] _ hmem (Cursor.declaration_place _ d)
  have hword : ((Cursor.start.place d).1.slot true).index < 1 := by omega
  obtain ⟨s', hset, hget, hformat, -⟩ :=
    (hkeeps 1 (EdgeStorage.zeroed 1 0) 3 true hword).set .privateOnly
  obtain ⟨p, -, hpattern, -, hunused⟩ := (hkeeps 1 t 3 true hword).get
  rw [← hfield] at hread hstore
  obtain rfl : p = 12 := Except.ok.inj (hpattern.symm.trans hread)
  have hnone : ∀ value : RoadAccess, TagEnum.ordinal value ≠ (12 : UInt32).toNat := by
    intro value
    cases value <;> decide
  obtain ⟨hmissing, htext⟩ := hunused hnone
  refine ⟨d, hd, hbits.trans rfl, _, hmem, f, hf, ⟨s', hset, hget, hformat⟩, t, ?_, hmissing, htext⟩
  rw [← hfield]
  exact hstore

end EnumField

end EdgeAttributes
