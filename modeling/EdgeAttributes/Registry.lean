import EdgeAttributes.Pipeline
import EdgeAttributes.Properties

namespace EdgeAttributes

/-- How to declare an encoded value, how to make the parser that fills it, and which other keys must
    be imported along with it. -/
structure Recipe where
  declare : Properties → Except Error Declaration
  makeParser : Layout → Properties → Except Error TagParser
  required : List String

/-- Recipes under their keys. -/
structure Registry where
  recipes : SortedMap Recipe

namespace Registry

/-- No recipes. -/
def empty : Registry := ⟨.empty⟩

/-- Keys in ascending order. -/
def keys (r : Registry) : List String := r.recipes.keys

/-- The recipe of a key. -/
def recipe? (r : Registry) (key : String) : Option Recipe := r.recipes.get? key

/-- Whether a key has a recipe. -/
def contains (r : Registry) (key : String) : Bool := r.recipes.contains key

/-- Add a recipe, or refuse it if its key is taken. -/
def register (r : Registry) (key : String) (recipe : Recipe) : Except Error Registry :=
  if r.contains key then .error (.duplicateImportKey key)
  else .ok ⟨r.recipes.insert key recipe⟩

/-- The report of a key without a recipe, with a suggestion. -/
def unknown [Measures] (r : Registry) (key : String) : Error :=
  .unknownImportKey key (Suggestion.suggest key r.keys)

/-- The recipe of a key, or the report that there is none. -/
def recipe [Measures] (r : Registry) (key : String) : Except Error Recipe :=
  match r.recipe? key with
  | some recipe => .ok recipe
  | none => .error (r.unknown key)

/-- Number of registered keys that are not on a path. -/
def offPath (r : Registry) (path : List String) : Nat := r.keys.countP fun k => !path.contains k

theorem mem_keys_of_recipe? {r : Registry} {key : String} {recipe : Recipe}
    (h : r.recipe? key = some recipe) : key ∈ r.keys := by
  rw [recipe?, SortedMap.get?, List.lookup_eq_some_iff] at h
  obtain ⟨before, after, heq, _⟩ := h
  exact List.mem_map.2 ⟨(key, recipe), by simp [heq], rfl⟩

private theorem countP_lt_countP {l : List String} {p q : String → Bool} {a : String}
    (hmem : a ∈ l) (hp : p a = false) (hq : q a = true) (himp : ∀ b, p b = true → q b = true) :
    l.countP p < l.countP q := by
  induction l with
  | nil => cases hmem
  | cons b l ih =>
    have hle : l.countP p ≤ l.countP q := List.countP_mono_left fun c _ hc => himp c hc
    rcases List.mem_cons.1 hmem with rfl | hmem
    · rw [List.countP_cons, List.countP_cons, hp, hq]
      simp
      omega
    · rw [List.countP_cons, List.countP_cons]
      have hlt := ih hmem
      by_cases hb : p b = true
      · rw [if_pos hb, if_pos (himp b hb)]
        omega
      · rw [if_neg hb]
        omega

/-- Stepping onto a registered key that is not on the path leaves fewer keys off it. -/
theorem offPath_append_lt {r : Registry} {path : List String} {key : String}
    (hkey : key ∈ r.keys) (hpath : key ∉ path) : r.offPath (path ++ [key]) < r.offPath path :=
  countP_lt_countP hkey (by simp) (by simpa using hpath) fun b hb => by simp_all

/-- Visit keys in order, each after what it requires. `path` leads from a requested key to the keys
    at hand, and `done` holds the keys visited so far, which are not visited again. -/
def visit [Measures] (r : Registry) (path : List String) (keys done : List String) :
    Except Error (List String) :=
  match keys with
  | [] => .ok done
  | key :: rest =>
    if key ∈ done then r.visit path rest done
    else if _hpath : key ∈ path then .error (.config (.requiresItself key path))
    else
      match _hrecipe : r.recipe? key with
      | none => .error (r.unknown key)
      | some recipe =>
        match r.visit (path ++ [key]) recipe.required done with
        | .error e => .error e
        | .ok done => r.visit path rest (done ++ [key])
termination_by (r.offPath path, keys.length)
decreasing_by
  · exact Prod.Lex.right _ (by simp)
  · exact Prod.Lex.left _ _ (offPath_append_lt (mem_keys_of_recipe? _hrecipe) _hpath)
  · exact Prod.Lex.right _ (by simp)

/-- The requested keys and all that they require, requirements first and none twice. -/
def resolve [Measures] (r : Registry) (keys : List String) : Except Error (List String) :=
  r.visit [] keys []

end Registry

end EdgeAttributes
