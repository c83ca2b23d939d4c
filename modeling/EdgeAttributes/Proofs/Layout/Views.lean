import EdgeAttributes.Proofs.Layout.Cells
import EdgeAttributes.Proofs.Layout.Drafting
import EdgeAttributes.Proofs.Layout.Lookup

namespace EdgeAttributes

universe u

/-- The kinds of values that a field can be looked up as, with one for each set of tag values. -/
inductive View (ι : Type u) where
  | int
  | boolean
  | decimal
  | enum (set : ι)

variable {ι : Type u} (α : ι → Type) [∀ set, DecidableEq (α set)] [∀ set, TagEnum (α set)]

namespace View

/-- A field as what a look-up of a kind makes of it. -/
def ofField : View ι → Field → Except Error Field
  | int, f => f.asInt.map IntField.field
  | boolean, f => f.asBoolean.map BooleanField.field
  | decimal, f => f.asDecimal.map DecimalField.field
  | enum set, f => (f.asEnum (α set)).map EnumField.field

/-- The field that a look-up of a kind has a view on. -/
def find [Measures] (v : View ι) (l : Layout) (name : String) : Except Error Field :=
  match v with
  | int => (l.intField name).map IntField.field
  | boolean => (l.booleanField name).map BooleanField.field
  | decimal => (l.decimalField name).map DecimalField.field
  | enum set => (l.enumField (α set) name).map EnumField.field

/-- Whether values of a kind are what a look-up asks for. -/
def Holds : View ι → Kind → Prop
  | int, kind => kind = .int
  | boolean, kind => kind = .boolean
  | decimal, kind => ∃ factor, kind = .decimal factor
  | enum set, kind => kind = .enum (TagEnum.shape (α set))

/-- What a look-up asks for in words. It names its tag values to those who look at others. -/
def wanted : View ι → Kind → String
  | int, _ => Kind.int.label
  | boolean, _ => Kind.boolean.label
  | decimal, _ => (Kind.decimal 1).label
  | enum set, .enum _ => (Kind.enum (TagEnum.shape (α set))).describe
  | enum set, _ => (Kind.enum (TagEnum.shape (α set))).label

variable {α}

/-- Only one look-up asks for values of a kind, if sets of tag values have their own identities. -/
theorem Holds.unique (hidentity : Function.Injective fun set => TagEnum.identity (α set))
    {v w : View ι} {kind : Kind} (hv : v.Holds α kind) (hw : w.Holds α kind) : w = v := by
  cases v <;> cases w
  case enum.enum set other =>
    have hshape : TagEnum.shape (α other) = TagEnum.shape (α set) :=
      Kind.enum.inj (hw.symm.trans hv)
    rw [hidentity (congrArg EnumShape.identity hshape)]
  all_goals simp_all [Holds]

theorem ofField_of_holds {v : View ι} {f : Field} (h : v.Holds α f.kind) :
    v.ofField α f = .ok f := by
  cases v with
  | int =>
    rw [ofField, Field.asInt_of_kind h]
    rfl
  | boolean =>
    rw [ofField, Field.asBoolean_of_kind h]
    rfl
  | decimal =>
    obtain ⟨factor, h⟩ := h
    rw [ofField, Field.asDecimal_of_kind h]
    rfl
  | enum set =>
    rw [ofField, Field.asEnum_of_kind h]
    rfl

theorem ofField_of_not_holds {v : View ι} {f : Field} (h : ¬ v.Holds α f.kind) :
    v.ofField α f = .error (f.mismatch (v.wanted α f.kind)) := by
  cases v with
  | int =>
    rw [ofField, Field.asInt_of_kind_ne h]
    rfl
  | boolean =>
    rw [ofField, Field.asBoolean_of_kind_ne h]
    rfl
  | decimal =>
    rw [ofField, Field.asDecimal_of_kind_ne fun factor hkind => h ⟨factor, hkind⟩]
    rfl
  | enum set =>
    rw [ofField]
    -- The words of the refusal depend on whether the field has tag values at all.
    cases hkind : f.kind with
    | enum shape =>
      have hne : shape ≠ TagEnum.shape (α set) := fun heq =>
        h (hkind.trans (congrArg Kind.enum heq))
      rw [Field.asEnum_of_kind_enum hkind hne]
      rfl
    | _ =>
      rw [Field.asEnum_of_kind_ne fun shape hshape => by simp [hkind] at hshape]
      rfl

theorem find_eq [Measures] (v : View ι) (l : Layout) (name : String) :
    v.find α l name = l.field name >>= v.ofField α := by
  cases v <;> cases hfield : l.field name <;>
    simp [find, ofField, Layout.intField, Layout.booleanField, Layout.decimalField,
      Layout.enumField, hfield, bind, Except.bind, Except.map]

end View

/-- A declaration that was made for values of a kind. -/
inductive Declaration.DeclaredAs (α : ι → Type) [∀ set, DecidableEq (α set)]
    [∀ set, TagEnum (α set)] : View ι → Declaration → Prop
  | int {name : String} {bits : Nat} {min : Int32} {twoDirections : Bool} {d : Declaration}
      (h : signedInt name bits min twoDirections = .ok d) : DeclaredAs α .int d
  | boolean {name : String} {twoDirections : Bool} {d : Declaration}
      (h : boolean name twoDirections = .ok d) : DeclaredAs α .boolean d
  | decimal {name : String} {bits : Nat} {factor : Float} {twoDirections : Bool} {d : Declaration}
      (h : decimal name bits factor twoDirections = .ok d) : DeclaredAs α .decimal d
  | enum {set : ι} {twoDirections : Bool} {d : Declaration}
      (h : enum (α set) twoDirections = .ok d) : DeclaredAs α (.enum set) d

variable {α}

theorem Declaration.DeclaredAs.holds {v : View ι} {d : Declaration} (h : d.DeclaredAs α v) :
    v.Holds α d.kind := by
  cases h with
  | int h => exact kind_of_make h
  | boolean h => exact kind_of_make h
  | @decimal name bits factor twoDirections d h =>
    unfold Declaration.decimal at h
    split at h
    · exact ⟨factor, kind_of_make h⟩
    · cases h
  | enum h => exact kind_of_make h

namespace Layout

/-- Declarations that come one after the other are refused if an accepted one has their name, and
    nothing changes then. The frozen layout has the accepted ones in their order, under distinct
    names, with the slots that they get one after the other. A name is found exactly if a field has
    it, as that field, and a field is seen as the one kind of value that it was declared for, with
    its own tag values and no others. -/
theorem Draft.lookup_freeze (hidentity : Function.Injective fun set => TagEnum.identity (α set))
    {decls : List Declaration} (hdecls : ∀ decl ∈ decls, ∃ v, decl.DeclaredAs α v) :
    let accepted := Draft.empty.accepted decls
    let d := stateAfterAll queue Draft.empty decls
    let l := d.freeze
    (∀ decl : Declaration,
      (decl.name ∈ accepted.map Declaration.name →
        queue decl d = .error (.duplicateEncodedValue decl.name) d ∧
          stateAfterAll queue d [decl] = d) ∧
      (decl.name ∉ accepted.map Declaration.name →
        ∃ d', queue decl d = .ok () d' ∧ stateAfterAll queue d [decl] = d' ∧
          d'.declarations = accepted ++ [decl])) ∧
    l.fields.map Field.declaration = accepted ∧ l.names.Nodup ∧
    l.fields = (Cursor.start.placeAll accepted).1 ∧
    (∀ name, (l.contains name = true ↔ name ∈ l.names) ∧
      (name ∈ l.names ↔ ∃ f, l.field name = .ok f) ∧
      (∀ f, l.field name = .ok f ↔ f ∈ l.fields ∧ f.name = name) ∧
      (name ∉ l.names → ∀ v : View ι, v.find α l name =
        .error (.encodedValueNotFound name (Suggestion.suggest name l.names)))) ∧
    ∀ f ∈ l.fields, ∃ v : View ι, f.declaration.DeclaredAs α v ∧ v.find α l f.name = .ok f ∧
      ∀ w : View ι, w ≠ v → w.find α l f.name =
        .error (.kindMismatch f.name (w.wanted α f.kind) f.kind.describe) := by
  intro accepted d l
  have haccepted : d.declarations = accepted := Draft.empty.declarations_stateAfterAll decls
  refine ⟨fun decl => ⟨fun hname => ?_, fun hname => ?_⟩, ?_, d.nodup_names, ?_,
    fun name => ⟨Layout.contains_iff, mem_names_iff, fun f => field_eq_ok_iff, fun hname v => ?_⟩,
    fun f hf => ?_⟩
  · rw [← haccepted] at hname
    have hqueue := queue_of_mem hname
    exact ⟨hqueue, stateAfter_of_error hqueue⟩
  · rw [← haccepted] at hname ⊢
    obtain ⟨d', hqueue, hdeclarations⟩ := queue_of_notMem hname
    exact ⟨d', hqueue, stateAfter_of_ok hqueue, hdeclarations⟩
  · exact d.map_declaration_freeze.trans haccepted
  · exact congrArg (fun decls => (Cursor.start.placeAll decls).1) haccepted
  · rw [View.find_eq, field_of_notMem hname]
    rfl
  · have hmem : f.declaration ∈ accepted := by
      rw [← haccepted, ← d.map_declaration_freeze]
      exact List.mem_map_of_mem hf
    obtain ⟨v, hv⟩ := hdecls _ ((Draft.empty.accepted_sublist decls).mem hmem)
    have hfield : l.field f.name = .ok f := field_eq_ok_iff.2 ⟨hf, rfl⟩
    refine ⟨v, hv, ?_, fun w hw => ?_⟩
    · rw [View.find_eq, hfield]
      exact View.ofField_of_holds hv.holds
    · rw [View.find_eq, hfield]
      exact View.ofField_of_not_holds fun hholds => hw (hv.holds.unique hidentity hholds)

private inductive Surface (checked : Bool) where
  | missing
  | paved
deriving DecidableEq

private instance (checked : Bool) : TagEnum (Surface checked) where
  title := "Surface"
  identity := if checked then "checked::Surface" else "raw::Surface"
  key := "surface"
  missing := .missing
  others := [.paved]
  spelling
    | .missing => "missing"
    | .paved => "paved"
  nodup := by simp
  complete a := by cases a <;> simp

private def surface (checked : Bool) : Declaration :=
  (Declaration.enum (Surface checked) false).toOption.get (by cases checked <;> rfl)

private def tunnel : Declaration := (Declaration.boolean "tunnel" true).toOption.get rfl

/-- The second of two sets of tag values, which share their title and their key, comes too late for
    its name. No look-up takes it for the first. -/
theorem Draft.lookup_freeze_surface :
    let l := (stateAfterAll queue Draft.empty [surface true, tunnel, surface false]).freeze
    l.names = ["surface", "tunnel"] ∧
    (View.enum true).find Surface l "surface" = .ok ⟨surface true, ⟨0, 0, 1⟩, none⟩ ∧
    (View.enum false).find Surface l "surface" =
      .error (.kindMismatch "surface" "an enum value of Surface" "an enum value of Surface") := by
  intro l
  have hidentity : Function.Injective fun checked => TagEnum.identity (Surface checked) := by
    intro first second
    cases first <;> cases second <;> decide
  have hsurface : ∀ checked, Declaration.enum (Surface checked) false = .ok (surface checked) := by
    intro checked
    cases checked <;> rfl
  have htunnel : Declaration.boolean "tunnel" true = .ok tunnel := rfl
  have hdecls : ∀ decl ∈ [surface true, tunnel, surface false],
      ∃ v, decl.DeclaredAs Surface v := by
    simp only [List.forall_mem_cons, List.not_mem_nil, false_implies, implies_true, and_true]
    exact ⟨⟨_, .enum (hsurface true)⟩, ⟨_, .boolean htunnel⟩, ⟨_, .enum (hsurface false)⟩⟩
  have hfields : l.fields =
      [⟨surface true, ⟨0, 0, 1⟩, none⟩, ⟨tunnel, ⟨0, 1, 1⟩, some ⟨0, 2, 1⟩⟩] := rfl
  obtain ⟨-, -, -, -, -, hviews⟩ := Draft.lookup_freeze hidentity hdecls
  obtain ⟨v, hv, hfind, hothers⟩ := hviews ⟨surface true, ⟨0, 0, 1⟩, none⟩
    (hfields ▸ List.mem_cons_self)
  have hkind : (View.enum true).Holds Surface (surface true).kind := rfl
  obtain rfl : .enum true = v := hv.holds.unique hidentity hkind
  exact ⟨rfl, hfind, hothers (.enum false) (by simp)⟩

end Layout

end EdgeAttributes
