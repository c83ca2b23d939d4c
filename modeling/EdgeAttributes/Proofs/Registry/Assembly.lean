import EdgeAttributes.Assembly
import EdgeAttributes.Proofs.Except
import EdgeAttributes.Proofs.Layout.Drafting
import EdgeAttributes.Proofs.Pipeline.Runs
import EdgeAttributes.Proofs.Registry.Resolution

namespace EdgeAttributes

/-- A fold that succeeds, and that adds one item to its state at each step, adds an item for each
    element in order. What no step changes stays as it was. -/
private theorem foldlM_items {ε σ κ α β : Type} {step : σ → κ → Except ε σ} {items : σ → List α}
    {rest : σ → β} {R : κ → α → Prop}
    (hstep : ∀ s k s', step s k = .ok s' →
      (∃ a, R k a ∧ items s' = items s ++ [a]) ∧ rest s' = rest s)
    {keys : List κ} {s s' : σ} (h : keys.foldlM step s = .ok s') :
    (∃ added, List.Forall₂ R keys added ∧ items s' = items s ++ added) ∧ rest s' = rest s := by
  induction keys generalizing s with
  | nil =>
    cases h
    exact ⟨⟨[], .nil, (List.append_nil _).symm⟩, rfl⟩
  | cons key keys ih =>
    rw [List.foldlM_cons, bind_eq_ok_iff] at h
    obtain ⟨s₁, hfirst, hlast⟩ := h
    obtain ⟨⟨a, ha, hitem⟩, hrest⟩ := hstep s key s₁ hfirst
    obtain ⟨⟨added, hadded, hitems⟩, hrest'⟩ := ih hlast
    refine ⟨⟨a :: added, .cons ha hadded, ?_⟩, hrest'.trans hrest⟩
    rw [hitems, hitem, List.append_assoc, List.singleton_append]

namespace Registry

variable {r : Registry} {p : Properties}

theorem recipe_eq_ok [Measures] {key : String} {recipe : Recipe} (h : r.recipe key = .ok recipe) :
    r.recipe? key = some recipe := by
  unfold Registry.recipe at h
  split at h
  · next found hfound =>
    cases h
    exact hfound
  · cases h

/-- A draft has the declarations of its keys in order. -/
theorem draft_eq_ok {keys : List String} {d : Layout.Draft} (h : r.draft p keys = .ok d) :
    List.Forall₂ (fun key decl => ∃ recipe, r.recipe? key = some recipe ∧
      recipe.declare p = .ok decl) keys d.declarations := by
  have hstep : ∀ (s : Layout.Draft) (key : String) (s' : Layout.Draft),
      (do s.push (← (← r.recipe key).declare p)) = .ok s' →
      (∃ decl, (∃ recipe, r.recipe? key = some recipe ∧ recipe.declare p = .ok decl) ∧
        s'.declarations = s.declarations ++ [decl]) ∧ () = () := by
    intro s key s' hs
    obtain ⟨recipe, hrecipe, hs⟩ := bind_eq_ok_iff.1 hs
    obtain ⟨decl, hdecl, hs⟩ := bind_eq_ok_iff.1 hs
    exact ⟨⟨decl, ⟨recipe, recipe_eq_ok hrecipe, hdecl⟩, Layout.Draft.declarations_push hs⟩, rfl⟩
  obtain ⟨⟨added, hadded, hitems⟩, -⟩ := foldlM_items hstep h
  rw [hitems]
  exact hadded

/-- A pipeline has the parsers of its keys in order, and the width of its layout. -/
theorem pipeline_eq_ok {keys : List String} {l : Layout} {q : Pipeline}
    (h : r.pipeline p l keys = .ok q) :
    List.Forall₂ (fun key parser => ∃ recipe, r.recipe? key = some recipe ∧
      recipe.makeParser l p = .ok parser) keys q.parsers ∧ q.intsPerEdge = l.intsPerEdge := by
  have hstep : ∀ (s : Pipeline) (key : String) (s' : Pipeline),
      (do s.add (← (← r.recipe key).makeParser l p)) = .ok s' →
      (∃ parser, (∃ recipe, r.recipe? key = some recipe ∧ recipe.makeParser l p = .ok parser) ∧
        s'.parsers = s.parsers ++ [parser]) ∧ s'.intsPerEdge = s.intsPerEdge := by
    intro s key s' hs
    obtain ⟨recipe, hrecipe, hs⟩ := bind_eq_ok_iff.1 hs
    obtain ⟨parser, hparser, hs⟩ := bind_eq_ok_iff.1 hs
    obtain ⟨-, rfl⟩ := Pipeline.add_eq_ok_iff.1 hs
    exact ⟨⟨parser, ⟨recipe, recipe_eq_ok hrecipe, hparser⟩, rfl⟩, rfl⟩
  obtain ⟨⟨added, hadded, hitems⟩, hwidth⟩ := foldlM_items hstep h
  rw [hitems]
  exact ⟨hadded, hwidth⟩

/-- Layouts come out of assemblies frozen, whatever the recipes are. -/
theorem layout_of_assemble {keys : List String} {a : Assembly}
    (h : r.assemble keys p = .ok a) : ∃ d : Layout.Draft, a.layout = d.freeze := by
  obtain ⟨resolved, _, h⟩ := bind_eq_ok_iff.1 h
  obtain ⟨d, _, h⟩ := bind_eq_ok_iff.1 h
  obtain ⟨q, _, h⟩ := bind_eq_ok_iff.1 h
  cases h
  exact ⟨d, rfl⟩

/-- What the recipes of a registry declare is named like their keys. -/
def Named (r : Registry) (p : Properties) : Prop :=
  ∀ key recipe decl, r.recipe? key = some recipe → recipe.declare p = .ok decl → decl.name = key

private theorem Named.declared (hnamed : r.Named p) {keys : List String} {decls : List Declaration}
    (h : List.Forall₂ (fun key decl => ∃ recipe, r.recipe? key = some recipe ∧
      recipe.declare p = .ok decl) keys decls) :
    decls.map Declaration.name = keys ∧ ∀ decl ∈ decls, ∃ recipe,
      r.recipe? decl.name = some recipe ∧ recipe.declare p = .ok decl := by
  induction h with
  | nil => exact ⟨rfl, by simp⟩
  | @cons key decl keys decls hdecl _ ih =>
    obtain ⟨recipe, hfound, hdecl⟩ := hdecl
    obtain ⟨hnames, hrest⟩ := ih
    have hname := hnamed key recipe decl hfound hdecl
    refine ⟨by rw [List.map_cons, hname, hnames], fun other hother => ?_⟩
    rcases List.mem_cons.1 hother with rfl | hother
    · exact ⟨recipe, hname ▸ hfound, hdecl⟩
    · exact hrest other hother

/-- A draft freezes to a value for each of its keys, in order, declared by the recipe of the key. -/
theorem Named.freeze_draft (hnamed : r.Named p) {keys : List String} {d : Layout.Draft}
    (h : r.draft p keys = .ok d) :
    d.freeze.names = keys ∧ ∀ f ∈ d.freeze.fields, ∃ recipe, r.recipe? f.name = some recipe ∧
      recipe.declare p = .ok f.declaration := by
  obtain ⟨hdeclared, hrecipes⟩ := hnamed.declared (draft_eq_ok h)
  refine ⟨?_, fun f hf => hrecipes f.declaration ?_⟩
  · rw [← hdeclared, ← d.map_declaration_freeze, List.map_map]
    rfl
  · rw [← d.map_declaration_freeze]
    exact List.mem_map_of_mem hf

end Registry

/-- A recipe names its value like its key, and its parser follows a behaviour in every layout where
    that value is declared by the recipe itself. -/
structure Recipe.Portable (recipe : Recipe) (p : Properties) (key : String) (b : Behaviour) :
    Prop where
  name_eq : ∀ decl, recipe.declare p = .ok decl → decl.name = key
  follows : ∀ l q, recipe.makeParser l p = .ok q → ∃ f ∈ l.fields, f.name = key ∧
    (recipe.declare p = .ok f.declaration → q.Follows b f)

namespace Registry

variable {r : Registry} {p : Properties}

/-- Every recipe of a registry is portable, with the behaviour of its key. -/
def Portable (r : Registry) (p : Properties) (behaviour : String → Behaviour) : Prop :=
  ∀ key recipe, r.recipe? key = some recipe → recipe.Portable p key (behaviour key)

theorem Portable.named {behaviour : String → Behaviour} (hportable : r.Portable p behaviour) :
    r.Named p :=
  fun key recipe decl hfound hdecl => (hportable key recipe hfound).name_eq decl hdecl

/-- An assembly of portable recipes has a value for every key that the request leads to and for no
    other, each declared by its recipe and filled by its behaviour. -/
theorem assemble_eq_ok {behaviour : String → Behaviour} (hportable : r.Portable p behaviour)
    {keys : List String} {a : Assembly} (h : r.assemble keys p = .ok a) :
    ∃ d : Layout.Draft, a.layout = d.freeze ∧ a.pipeline.Follows behaviour d ∧
      (∀ name, name ∈ d.freeze.names ↔ r.Reachable keys name) ∧
      ∀ f ∈ d.freeze.fields, ∃ recipe, r.recipe? f.name = some recipe ∧
        recipe.declare p = .ok f.declaration := by
  obtain ⟨resolved, hresolve, h⟩ := bind_eq_ok_iff.1 h
  obtain ⟨d, hdraft, h⟩ := bind_eq_ok_iff.1 h
  obtain ⟨q, hpipeline, h⟩ := bind_eq_ok_iff.1 h
  cases h
  obtain ⟨hparsers, hwidth⟩ := pipeline_eq_ok hpipeline
  obtain ⟨hnames, hrecipe⟩ := hportable.named.freeze_draft hdraft
  refine ⟨d, rfl, ⟨hwidth, ?_⟩, ?_, hrecipe⟩
  · rw [hnames]
    refine hparsers.imp fun key parser hparser => ?_
    obtain ⟨recipe, hfound, hmake⟩ := hparser
    obtain ⟨f, hf, rfl, hfollows⟩ := (hportable key recipe hfound).follows _ _ hmake
    obtain ⟨recipe', hfound', hdecl⟩ := hrecipe f hf
    obtain rfl : recipe = recipe' := Option.some.inj (hfound.symm.trans hfound')
    exact ⟨f, hf, rfl, hfollows hdecl⟩
  · intro name
    rw [hnames]
    exact (resolve_ok hresolve).2 name

end Registry

end EdgeAttributes
