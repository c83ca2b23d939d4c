import EdgeAttributes.Proofs.Registry.Builtin

namespace EdgeAttributes.Registry

variable {r : Registry} {p : Properties} {behaviour : String → Behaviour} {keys keys' : List String}
  {a a' : Assembly}

/-- Assemblies of portable recipes that share their deciding keys run alike: every call returns the
    same decision, and each value that both have reads the same. -/
private theorem Portable.results_eq (hportable : r.Portable p behaviour)
    (h : r.assemble keys p = .ok a) (h' : r.assemble keys' p = .ok a')
    (hshared : ∀ name way, (behaviour name).decision way ≠ none →
      (r.Reachable keys name ↔ r.Reachable keys' name))
    (calls : List Call) (edges edges' : Nat) :
    ∃ decisions s s',
      a.pipeline.handleAll calls (a.layout.createStorage edges) = .ok decisions s ∧
      a'.pipeline.handleAll calls (a'.layout.createStorage edges') = .ok decisions s' ∧
      ∀ f ∈ a.layout.fields, ∀ f' ∈ a'.layout.fields, f.name = f'.name → ∀ edge reverse,
        ∃ text, f.format s edge reverse = .ok text ∧ f'.format s' edge reverse = .ok text := by
  obtain ⟨layout, pipeline⟩ := a
  obtain ⟨layout', pipeline'⟩ := a'
  obtain ⟨d, hlayout, hfollows, hnames, hdeclared⟩ := assemble_eq_ok hportable h
  obtain ⟨d', hlayout', hfollows', hnames', hdeclared'⟩ := assemble_eq_ok hportable h'
  obtain rfl : layout = d.freeze := hlayout
  obtain rfl : layout' = d'.freeze := hlayout'
  have hdecide : pipeline.decide = pipeline'.decide := by
    funext way
    apply hfollows.decide_congr hfollows'
    intro name way hdecides
    rw [hnames name, hnames' name]
    exact hshared name way hdecides
  -- Both storages hold the contents of one abstract run, which no layout enters.
  obtain ⟨s, hrun, hreads⟩ := hfollows.handleAll (le_refl _) calls
    (d.reads_zeroed (le_refl _) edges)
  obtain ⟨s', hrun', hreads'⟩ := hfollows'.handleAll (le_refl _) calls
    (d'.reads_zeroed (le_refl _) edges')
  have hdecisions : (calls.map fun call => pipeline'.decide call.way) =
      calls.map fun call => pipeline.decide call.way := by rw [hdecide]
  rw [hdecisions] at hrun'
  refine ⟨_, s, s', hrun, hrun', ?_⟩
  intro f hf f' hf' hname edge reverse
  have hrender : f.render = f'.render := by
    obtain ⟨recipe, hfound, hdecl⟩ := hdeclared f hf
    obtain ⟨recipe', hfound', hdecl'⟩ := hdeclared' f' hf'
    rw [← hname] at hfound'
    obtain rfl : recipe = recipe' := Option.some.inj (hfound.symm.trans hfound')
    exact Field.render_congr (Except.ok.inj (hdecl.symm.trans hdecl'))
  refine ⟨_, hreads.format_eq hf edge reverse, ?_⟩
  rw [hreads'.format_eq hf' edge reverse, hrender, hname, hdecide]

/-- Neither the order nor the extent of a request shows in the results of the built-in parsers, as
    long as the same vehicles are reached. No refusal stops a run, and the numbers of edges that
    storage starts with play no part. -/
theorem builtin_results_eq (p : Properties) {keys keys' : List String} {a a' : Assembly}
    (h : builtin.assemble keys p = .ok a) (h' : builtin.assemble keys' p = .ok a')
    (hvehicles : ∀ key ∈ vehicleKeys, builtin.Reachable keys key ↔ builtin.Reachable keys' key)
    (calls : List Call) (edges edges' : Nat) :
    ∃ decisions s s',
      a.pipeline.handleAll calls (a.layout.createStorage edges) = .ok decisions s ∧
      a'.pipeline.handleAll calls (a'.layout.createStorage edges') = .ok decisions s' ∧
      ∀ f ∈ a.layout.fields, ∀ f' ∈ a'.layout.fields, f.name = f'.name → ∀ edge reverse,
        ∃ text, f.format s edge reverse = .ok text ∧ f'.format s' edge reverse = .ok text := by
  obtain ⟨behaviour, hportable, hundecided⟩ := builtin_portable p
  apply hportable.results_eq h h'
  intro name way hdecides
  apply hvehicles
  by_contra hname
  rw [hundecided name hname] at hdecides
  exact hdecides rfl

private theorem recipe_mopedAccess : builtin.recipe? "moped_access" =
    some (.access "moped" Vehicle.mopedOf ["moped"]) := rfl

private theorem recipe_moped : builtin.recipe? "moped" =
    some (.plain (Declaration.enum Moped false) TagParser.mopedOf) := rfl

private theorem recipe_maxSpeed : builtin.recipe? "max_speed" =
    some (.plain Declaration.maxSpeed TagParser.maxSpeedOf) := rfl

private theorem resolve_implied :
    builtin.resolve ["moped_access"] = .ok ["moped", "moped_access"] := by
  simp [resolve, visit_nil, visit_of_recipe, recipe_mopedAccess, recipe_moped, Recipe.access,
    Recipe.plain, Except.bind]

private theorem resolve_explicit : builtin.resolve ["max_speed", "moped", "moped_access"] =
    .ok ["max_speed", "moped", "moped_access"] := by
  simp [resolve, visit_nil, visit_of_mem, visit_of_recipe, recipe_mopedAccess, recipe_moped,
    recipe_maxSpeed, Recipe.access, Recipe.plain, Except.bind]

private def mopedCalls : List Call :=
  [⟨4, .ofTags 1 [("highway", "cycleway"), ("moped", "designated"), ("maxspeed", "30")],
      Layout.createRelationFlags⟩,
    ⟨0, .ofTags 2 [("highway", "footway")], Layout.createRelationFlags⟩,
    ⟨4, .ofTags 3 [("highway", "residential"), ("oneway", "yes")], Layout.createRelationFlags⟩]

/-- An implied requirement against a request that names it, with one more value before it. -/
theorem builtin_results_eq_moped : ∃ a a' decisions s s',
    builtin.assemble ["moped_access"] .empty = .ok a ∧
    builtin.assemble ["max_speed", "moped", "moped_access"] .empty = .ok a' ∧
    a.pipeline.handleAll mopedCalls (a.layout.createStorage 0) = .ok decisions s ∧
    a'.pipeline.handleAll mopedCalls (a'.layout.createStorage 7) = .ok decisions s' ∧
    ∀ f ∈ a.layout.fields, ∀ f' ∈ a'.layout.fields, f.name = f'.name → ∀ edge reverse,
      ∃ text, f.format s edge reverse = .ok text ∧ f'.format s' edge reverse = .ok text := by
  have hassemble : ∃ a, builtin.assemble ["moped_access"] .empty = .ok a := by
    rw [assemble, resolve_implied]
    exact ⟨_, rfl⟩
  have hassemble' :
      ∃ a, builtin.assemble ["max_speed", "moped", "moped_access"] .empty = .ok a := by
    rw [assemble, resolve_explicit]
    exact ⟨_, rfl⟩
  obtain ⟨a, ha⟩ := hassemble
  obtain ⟨a', ha'⟩ := hassemble'
  have hvehicles : ∀ key ∈ vehicleKeys, builtin.Reachable ["moped_access"] key ↔
      builtin.Reachable ["max_speed", "moped", "moped_access"] key := by
    intro key hkey
    rw [← (resolve_ok resolve_implied).2 key, ← (resolve_ok resolve_explicit).2 key]
    revert key
    decide
  obtain ⟨decisions, s, s', hrun, hrun', hformat⟩ :=
    builtin_results_eq .empty ha ha' hvehicles mopedCalls 0 7
  exact ⟨a, a', decisions, s, s', ha, ha', hrun, hrun', hformat⟩

end EdgeAttributes.Registry
