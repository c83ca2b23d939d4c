import EdgeAttributes.Field.Typed
import EdgeAttributes.RelationFlags
import EdgeAttributes.SortedMap
import EdgeAttributes.Suggestion

namespace EdgeAttributes

/-- Declarations under distinct names, in the order they came. -/
structure Layout.Draft where
  declarations : List Declaration
  nodup : (declarations.map Declaration.name).Nodup

/-- The fields of an edge in the order of their declarations, and the position of every name. -/
structure Layout where
  fields : List Field
  index : SortedMap Nat
  intsPerEdge : Nat
  bitsUsed : Nat
  indexed : ∀ name i, index.get? name = some i ↔ (fields.map Field.name)[i]? = some name

namespace Layout

namespace Draft

/-- No declarations yet. -/
def empty : Draft := ⟨[], by simp⟩

/-- Whether a name is taken. -/
def contains (d : Draft) (name : String) : Bool := d.declarations.any (·.name == name)

/-- Queue a declaration behind the others, or refuse it if its name is taken. -/
def queue (decl : Declaration) : EStateM Error Draft Unit := fun d =>
  if h : d.contains decl.name then .error (.duplicateEncodedValue decl.name) d
  else .ok () ⟨d.declarations ++ [decl], by
    rw [List.map_append, List.nodup_append]
    refine ⟨d.nodup, by simp, ?_⟩
    intro a ha b hb hab
    obtain ⟨other, hother, rfl⟩ := List.mem_map.1 ha
    simp only [List.map_cons, List.map_nil, List.mem_singleton] at hb
    exact h (List.any_eq_true.2 ⟨other, hother, by simp [hab, hb]⟩)⟩

/-- The draft with one more declaration, or the refusal of that declaration. -/
def push (d : Draft) (decl : Declaration) : Except Error Draft :=
  match queue decl d with
  | .ok () d' => .ok d'
  | .error e _ => .error e

/-- Give every declaration its slots and freeze the layout. -/
def freeze (d : Draft) : Layout :=
  let placed := Cursor.start.placeAll d.declarations
  { fields := placed.1
    index := .ofList (placed.1.map Field.name).zipIdx
    intsPerEdge := placed.2.words
    bitsUsed := placed.2.bitsUsed
    indexed := fun name i => by
      have hnodup : ((placed.1.map Field.name).zipIdx.map Prod.fst).Nodup := by
        rw [List.zipIdx_map_fst, Cursor.map_name_placeAll]
        exact d.nodup
      rw [SortedMap.get?_ofList_eq_some hnodup, List.mk_mem_zipIdx_iff_getElem?] }

end Draft

/-- Names in the order of the fields. -/
def names (l : Layout) : List String := l.fields.map Field.name

/-- Whether some field has a name. -/
def contains (l : Layout) (name : String) : Bool := l.index.contains name

/-- A position that the index gives is one of a field. -/
theorem lt_of_index {l : Layout} {name : String} {i : Nat} (h : l.index.get? name = some i) :
    i < l.fields.length := by
  simpa using (List.getElem?_eq_some_iff.1 ((l.indexed name i).1 h)).1

/-- The field of a name; a missing one is reported with a suggestion. -/
def field [Measures] (l : Layout) (name : String) : Except Error Field :=
  match h : l.index.get? name with
  | some i => .ok (l.fields.get ⟨i, lt_of_index h⟩)
  | none => .error (.encodedValueNotFound name (Suggestion.suggest name l.names))

/-- The field of a name, as one of integers. -/
def intField [Measures] (l : Layout) (name : String) : Except Error IntField :=
  l.field name >>= Field.asInt

/-- The field of a name, as one of flags. -/
def booleanField [Measures] (l : Layout) (name : String) : Except Error BooleanField :=
  l.field name >>= Field.asBoolean

/-- The field of a name, as one of decimals. -/
def decimalField [Measures] (l : Layout) (name : String) : Except Error DecimalField :=
  l.field name >>= Field.asDecimal

/-- The field of a name, as one of the tag values of `α`. -/
def enumField (α : Type) [DecidableEq α] [TagEnum α] [Measures] (l : Layout) (name : String) :
    Except Error (EnumField α) :=
  l.field name >>= Field.asEnum α

/-- Zeroed storage for `edges` edges of this layout. -/
def createStorage (l : Layout) (edges : Nat) : EdgeStorage l.intsPerEdge :=
  EdgeStorage.zeroed l.intsPerEdge edges

/-- Refuse a storage width that is less than what is needed. -/
def checkWidth (required actual : Nat) : Except Error Unit :=
  if actual < required then .error (.storageTooNarrow required actual) else .ok ()

/-- Refuse storage that is narrower than this layout. -/
def checkStorage {width : Nat} (l : Layout) (_ : EdgeStorage width) : Except Error Unit :=
  checkWidth l.intsPerEdge width

/-- Words of relation flags that parsers are handed. -/
def relationFlagInts : Nat := 2

/-- Cleared relation flags. -/
def createRelationFlags : RelationFlags := RelationFlags.zeroed relationFlagInts

end Layout

end EdgeAttributes
