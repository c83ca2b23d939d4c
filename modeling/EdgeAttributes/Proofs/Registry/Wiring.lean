import EdgeAttributes.Proofs.Registry.Builtin

namespace EdgeAttributes

section Fold

variable {ε σ κ : Type} {step : σ → κ → Except ε σ} {Taken : σ → List κ → Prop}

/-- A step takes a key that is new to its state, or refuses it. Which of the two it is does not
    depend on the state. -/
private def Takes (step : σ → κ → Except ε σ) (Taken : σ → List κ → Prop) (key : κ)
    (check : Except ε Unit) : Prop :=
  ∀ s done, Taken s done → key ∉ done →
    (check = .ok () ∧ ∃ s', step s key = .ok s' ∧ Taken s' (done ++ [key])) ∨
      ∃ e, check = .error e ∧ step s key = .error e

/-- A fold over keys of which none comes twice takes all of them, or ends at one that is refused. -/
private theorem foldlM_takes {keys : List κ} {check : κ → Except ε Unit}
    (hstep : ∀ key ∈ keys, Takes step Taken key (check key)) {s : σ} {done : List κ}
    (hs : Taken s done) (hfresh : (done ++ keys).Nodup) :
    ((∀ key ∈ keys, check key = .ok ()) ∧
      ∃ s', keys.foldlM step s = .ok s' ∧ Taken s' (done ++ keys)) ∨
    ∃ key ∈ keys, ∃ e, check key = .error e ∧ keys.foldlM step s = .error e := by
  induction keys generalizing s done with
  | nil =>
    rw [List.append_nil]
    exact .inl ⟨by simp, s, rfl, hs⟩
  | cons key keys ih =>
    obtain ⟨hfirst, hlater⟩ := List.forall_mem_cons.1 hstep
    have hkey : key ∉ done := fun hmem =>
      (List.nodup_append.1 hfresh).2.2 key hmem key List.mem_cons_self rfl
    -- The key moves from the front of those to come to the end of those that are done.
    rw [List.append_cons] at hfresh ⊢
    obtain ⟨hok, s₁, htake, hs₁⟩ | ⟨e, he, htake⟩ := hfirst s done hs hkey
    · rw [List.foldlM_cons, htake]
      obtain ⟨hrest, s', hfold, hs'⟩ | ⟨other, hmem, e, he, hfold⟩ := ih hlater hs₁ hfresh
      · exact .inl ⟨List.forall_mem_cons.2 ⟨hok, hrest⟩, s', hfold, hs'⟩
      · exact .inr ⟨other, List.mem_cons_of_mem _ hmem, e, he, hfold⟩
    · rw [List.foldlM_cons, htake]
      exact .inr ⟨key, List.mem_cons_self, e, he, rfl⟩

end Fold

/-- A parser of one new value joins others that write one value each. -/
theorem Pipeline.Owned.add_of_notMem {p : Pipeline} (hp : p.Owned) {q : TagParser}
    {names : List String} {name : String}
    (hwrites : p.parsers.map TagParser.writes = names.map fun name => [name]) (hname : name ∉ names)
    (hq : q.writes = [name]) : ∃ p', p.add q = .ok p' ∧ p'.Owned ∧
      p'.parsers.map TagParser.writes = (names ++ [name]).map fun name => [name] := by
  have hfree : ∀ name ∈ q.writes, p.owner? name = none := by
    rw [hq, List.forall_mem_singleton, hp.owner?_eq_none_iff]
    intro other hother htaken
    have hmem : other.writes ∈ names.map fun name => [name] :=
      hwrites ▸ List.mem_map_of_mem hother
    obtain ⟨taken, hmem, heq⟩ := List.mem_map.1 hmem
    rw [← heq, List.mem_singleton] at htaken
    exact hname (htaken ▸ hmem)
  refine ⟨p.extended q, add_eq_ok_iff.2 ⟨hfree, rfl⟩, hp.extended hfree, ?_⟩
  rw [parsers_extended, List.map_append, List.map_append, hwrites, List.map_singleton, hq,
    List.map_singleton]

/-- A recipe declares the value of its key. Where a layout has that value, the recipe makes a parser
    that writes it and nothing else, unless the key is refused. -/
structure Recipe.Supplies (recipe : Recipe) (p : Properties) (key : String)
    (check : Except Error Unit) : Prop where
  declares : ∃ decl, recipe.declare p = .ok decl ∧ decl.name = key
  makes : ∀ (l : Layout) (f : Field), l.field key = .ok f →
    recipe.declare p = .ok f.declaration →
      (recipe.makeParser l p).map TagParser.writes = check.map fun _ => [key]

namespace Registry

variable {r : Registry} {p : Properties} {check : String → Except Error Unit}

/-- Every recipe of a registry supplies its key, and refuses it as its check says. -/
def Supplies (r : Registry) (p : Properties) (check : String → Except Error Unit) : Prop :=
  ∀ key recipe, r.recipe? key = some recipe → recipe.Supplies p key (check key)

private theorem exists_recipe {key : String} (hkey : r.contains key = true) :
    ∃ recipe, r.recipe? key = some recipe ∧ r.recipe key = .ok recipe := by
  rw [contains_eq_isSome] at hkey
  obtain ⟨recipe, hfound⟩ := Option.isSome_iff_exists.1 hkey
  exact ⟨recipe, hfound, by rw [Registry.recipe, hfound]⟩

namespace Supplies

variable {keys : List String}

theorem named (h : r.Supplies p check) : r.Named p := by
  intro key recipe decl hfound hdecl
  obtain ⟨decl', hdecl', hname⟩ := (h key recipe hfound).declares
  rw [Except.ok.inj (hdecl.symm.trans hdecl')]
  exact hname

/-- Distinct keys that are registered can all be declared. -/
theorem exists_draft (h : r.Supplies p check) (hnodup : keys.Nodup)
    (hregistered : ∀ key ∈ keys, r.contains key = true) : ∃ d, r.draft p keys = .ok d := by
  have hstep : ∀ key ∈ keys, Takes
      (fun (d : Layout.Draft) key => do d.push (← (← r.recipe key).declare p))
      (fun d done => d.declarations.map Declaration.name = done) key (.ok ()) := by
    rintro key hmem d _ rfl hkey
    obtain ⟨recipe, hfound, hrecipe⟩ := exists_recipe (hregistered key hmem)
    obtain ⟨decl, hdecl, rfl⟩ := (h key recipe hfound).declares
    obtain ⟨d', hpush, hdeclarations⟩ := Layout.Draft.push_of_notMem hkey
    refine .inl ⟨rfl, d', ?_, by simp [hdeclarations]⟩
    exact bind_eq_ok_iff.2 ⟨recipe, hrecipe, bind_eq_ok_iff.2 ⟨decl, hdecl, hpush⟩⟩
  have hempty : Layout.Draft.empty.declarations.map Declaration.name = [] := rfl
  obtain ⟨-, d, hdraft, -⟩ | ⟨_, _, e, he, -⟩ := foldlM_takes hstep hempty hnodup
  · exact ⟨d, hdraft⟩
  · cases he

/-- Keys that were declared get one parser each, in order, or one of them is refused. -/
theorem pipeline_cases (h : r.Supplies p check) (hnodup : keys.Nodup)
    (hregistered : ∀ key ∈ keys, r.contains key = true) {d : Layout.Draft}
    (hdraft : r.draft p keys = .ok d) :
    ((∀ key ∈ keys, check key = .ok ()) ∧ ∃ q, r.pipeline p d.freeze keys = .ok q ∧
      q.parsers.map TagParser.writes = keys.map fun key => [key]) ∨
    ∃ key ∈ keys, ∃ e, check key = .error e ∧ r.pipeline p d.freeze keys = .error e := by
  obtain ⟨hnames, hfields⟩ := h.named.freeze_draft hdraft
  have hstep : ∀ key ∈ keys, Takes
      (fun (q : Pipeline) key => do q.add (← (← r.recipe key).makeParser d.freeze p))
      (fun q done => q.Owned ∧ q.parsers.map TagParser.writes = done.map fun key => [key])
      key (check key) := by
    rintro key hmem q done ⟨howned, hq⟩ hkey
    obtain ⟨recipe, hfound, hrecipe⟩ := exists_recipe (hregistered key hmem)
    obtain ⟨f, hf⟩ := Layout.exists_field_eq_ok (hnames ▸ hmem)
    obtain ⟨hfmem, rfl⟩ := Layout.field_eq_ok hf
    obtain ⟨recipe', hfound', hdecl⟩ := hfields f hfmem
    obtain rfl : recipe = recipe' := Option.some.inj (hfound.symm.trans hfound')
    have hmakes := (h f.name recipe hfound).makes d.freeze f hf hdecl
    cases hcheck : check f.name with
    | ok _ =>
      rw [hcheck] at hmakes
      obtain ⟨parser, hparser, hwrites⟩ := map_eq_ok hmakes
      obtain ⟨q', hadd, hq'⟩ := howned.add_of_notMem hq hkey hwrites
      refine .inl ⟨rfl, q', ?_, hq'⟩
      exact bind_eq_ok_iff.2 ⟨recipe, hrecipe, bind_eq_ok_iff.2 ⟨parser, hparser, hadd⟩⟩
    | error e =>
      rw [hcheck] at hmakes
      refine .inr ⟨e, rfl, bind_eq_error_iff.2 (.inr ⟨recipe, hrecipe, ?_⟩)⟩
      exact bind_eq_error_iff.2 (.inl (map_eq_error hmakes))
  have hempty : (Pipeline.ofWidth d.freeze.intsPerEdge).Owned ∧
      (Pipeline.ofWidth d.freeze.intsPerEdge).parsers.map TagParser.writes =
        ([] : List String).map fun key => [key] := ⟨.ofWidth _, rfl⟩
  exact (foldlM_takes hstep hempty hnodup).imp_left fun ⟨hchecks, q, hfold, _, hwrites⟩ =>
    ⟨hchecks, q, hfold, hwrites⟩

/-- Once keys are resolved, an assembly can fail only at a key that is refused. Otherwise it has the
    values of these keys in order, and one parser for each of them in the same order. -/
theorem assemble_cases (h : r.Supplies p check) {resolved : List String}
    (hresolve : r.resolve keys = .ok resolved) :
    ((∀ key ∈ resolved, check key = .ok ()) ∧ ∃ a, r.assemble keys p = .ok a ∧
      a.layout.names = resolved ∧
      a.pipeline.parsers.map TagParser.writes = resolved.map (fun key => [key]) ∧
      a.pipeline.intsPerEdge = a.layout.intsPerEdge) ∨
    ∃ key ∈ resolved, ∃ e, check key = .error e ∧ r.assemble keys p = .error e := by
  obtain ⟨hordered, -⟩ := resolve_ok hresolve
  obtain ⟨d, hdraft⟩ := h.exists_draft hordered.nodup hordered.registered
  obtain ⟨hnames, -⟩ := h.named.freeze_draft hdraft
  have hassemble : r.assemble keys p = do return ⟨d.freeze, ← r.pipeline p d.freeze resolved⟩ := by
    rw [assemble, hresolve]
    change (r.draft p resolved >>= _) = _
    rw [hdraft]
    rfl
  rw [hassemble]
  obtain ⟨hchecks, q, hpipeline, hwrites⟩ | ⟨key, hkey, e, he, hpipeline⟩ :=
    h.pipeline_cases hordered.nodup hordered.registered hdraft
  · obtain ⟨-, hwidth⟩ := pipeline_eq_ok hpipeline
    rw [hpipeline]
    exact .inl ⟨hchecks, _, rfl, hnames, hwrites, hwidth⟩
  · rw [hpipeline]
    exact .inr ⟨key, hkey, e, he, rfl⟩

end Supplies

end Registry

/-- A flag that is asked for is absent, or is one of two words between blanks, or is refused along
    with its text. -/
theorem Properties.getFlag_cases (p : Properties) (key : String) (default : Bool) :
    ((∀ v, p.text? key = some v → Text.trim v = "true" ∨ Text.trim v = "false") ∧
      ∃ b, p.getFlag key default = .ok b) ∨
    ∃ v, p.text? key = some v ∧ ¬ (Text.trim v = "true" ∨ Text.trim v = "false") ∧
      p.getFlag key default = .error (.config (.notBoolean key v)) := by
  rw [getFlag]
  cases htext : p.text? key with
  | none => exact .inl ⟨by simp, default, rfl⟩
  | some v =>
    by_cases htrue : Text.trim v = "true"
    · exact .inl ⟨by simp [htrue], true, if_pos htrue⟩
    · by_cases hfalse : Text.trim v = "false"
      · refine .inl ⟨by simp [hfalse], false, ?_⟩
        simp only [if_neg htrue, if_pos hfalse]
      · refine .inr ⟨v, rfl, not_or.2 ⟨htrue, hfalse⟩, ?_⟩
        simp only [if_neg htrue, if_neg hfalse]

namespace Recipe

variable {p : Properties}

/-- A recipe that does not look at properties supplies its key if it finds its own value again. -/
private theorem supplies_plain {β : Type} {declaration : Except Error Declaration} {d : Declaration}
    {view : Layout → Except Error β} {parser : β → TagParser} (hdecl : declaration = .ok d)
    (hview : ∀ (l : Layout) (f : Field), l.field d.name = .ok f → f.kind = d.kind →
      ∃ b, view l = .ok b ∧ (parser b).writes = [f.name]) :
    (plain declaration fun l => (view l).map parser).Supplies p d.name (.ok ()) where
  declares := ⟨d, hdecl, rfl⟩
  makes l f hf hdeclared := by
    have hsame : f.declaration = d := Except.ok.inj (Eq.trans hdeclared.symm hdecl)
    obtain ⟨b, hfound, hwrites⟩ := hview l f hf (congrArg Declaration.kind hsame)
    change ((view l).map parser).map TagParser.writes = _
    rw [hfound]
    change Except.ok (parser b).writes = Except.ok [d.name]
    rw [hwrites, Field.name, hsame]

private theorem supplies_tag {α : Type} [DecidableEq α] [TagEnum α] {d : Declaration}
    {parser : EnumField α → TagParser} (hdecl : Declaration.enum α false = .ok d)
    (hparser : ∀ f, (parser f).writes = [f.field.name]) :
    (plain (Declaration.enum α false)
      fun l => (l.enumField α (TagEnum.key α)).map parser).Supplies p (TagEnum.key α)
        (.ok ()) := by
  obtain ⟨hname, -, -, -, hkind⟩ := Declaration.make_eq_ok hdecl
  rw [← hname]
  refine supplies_plain hdecl fun l f hf hsame => ?_
  exact ⟨_, Layout.enumField_of_kind hf (hsame.trans hkind), hparser _⟩

private theorem supplies_roundabout :
    (plain Declaration.roundabout TagParser.roundaboutOf).Supplies p Declaration.roundaboutKey
      (.ok ()) := by
  obtain ⟨d, hdecl⟩ : ∃ d, Declaration.boolean Declaration.roundaboutKey false = .ok d := ⟨_, rfl⟩
  obtain ⟨hname, -, -, -, hkind⟩ := Declaration.make_eq_ok hdecl
  rw [← hname]
  refine supplies_plain hdecl fun l f hf hsame => ?_
  rw [hname] at hf
  exact ⟨_, Layout.booleanField_of_kind hf (hsame.trans hkind), rfl⟩

private theorem supplies_maxSpeed :
    (plain Declaration.maxSpeed TagParser.maxSpeedOf).Supplies p Declaration.maxSpeedKey
      (.ok ()) := by
  obtain ⟨d, hdecl⟩ : ∃ d, Declaration.maxSpeed = .ok d := ⟨_, rfl⟩
  obtain ⟨hname, -, -, -, hkind⟩ := Declaration.maxSpeed_eq_ok hdecl
  rw [← hname]
  refine supplies_plain hdecl fun l f hf hsame => ?_
  rw [hname] at hf
  exact ⟨_, Layout.decimalField_of_kind hf (hsame.trans hkind), rfl⟩

/-- A vehicle is refused if it cannot be told whether fords bar a way. -/
private theorem supplies_access {vehicle : String} {make : Bool → Vehicle} {required : List String}
    {d : Declaration} (hdecl : Declaration.vehicleAccess vehicle = .ok d) :
    (access vehicle (Vehicle.withField make (Declaration.accessKey vehicle)) required).Supplies p
      (Declaration.accessKey vehicle)
      ((p.getFlag Vehicle.blockFordsKey false).map fun _ => ()) := by
  obtain ⟨hname, -, -, -, hkind⟩ := Declaration.make_eq_ok hdecl
  refine ⟨⟨d, hdecl, hname⟩, fun l f hf hdeclared => ?_⟩
  have hsame : f.declaration = d := Except.ok.inj (Eq.trans hdeclared.symm hdecl)
  have hview := Layout.booleanField_of_kind hf (by rw [Field.kind, hsame, hkind])
  simp only [access, Vehicle.withField, hview]
  cases p.getFlag Vehicle.blockFordsKey false with
  | error e => rfl
  | ok blockFords =>
    change Except.ok [f.name] = Except.ok [Declaration.accessKey vehicle]
    rw [Field.name, hsame, hname]

end Recipe

namespace Registry

open Relation

variable {keys : List String}

/-- What is checked of a built-in key: for vehicles, that it is known whether fords bar a way. -/
def builtinCheck (p : Properties) (key : String) : Except Error Unit :=
  if key ∈ vehicleKeys then (p.getFlag Vehicle.blockFordsKey false).map fun _ => () else .ok ()

theorem builtin_supplies (p : Properties) : builtin.Supplies p (builtinCheck p) := by
  intro key recipe h
  have hmem := SortedMap.mem_of_get?_ofList h
  simp only [List.mem_cons, List.not_mem_nil, or_false, Prod.mk.injEq] at hmem
  obtain ⟨rfl, rfl⟩ | ⟨rfl, rfl⟩ | ⟨rfl, rfl⟩ | ⟨rfl, rfl⟩ | ⟨rfl, rfl⟩ | ⟨rfl, rfl⟩ |
    ⟨rfl, rfl⟩ := hmem
  · exact Recipe.supplies_tag rfl fun _ => rfl
  · exact Recipe.supplies_tag rfl fun _ => rfl
  · exact Recipe.supplies_tag rfl fun _ => rfl
  · exact Recipe.supplies_roundabout
  · exact Recipe.supplies_maxSpeed
  · exact Recipe.supplies_access rfl
  · exact Recipe.supplies_access rfl

/-- Only the access of mopeds requires another key. -/
theorem eq_of_builtin_requires {a b : String} (h : builtin.Requires a b) :
    a = Declaration.accessKey "moped" ∧ b = TagEnum.key Moped := by
  obtain ⟨recipe, hfound, hb⟩ := h
  have hmem := SortedMap.mem_of_get?_ofList hfound
  simp only [List.mem_cons, List.not_mem_nil, or_false, Prod.mk.injEq] at hmem
  obtain ⟨-, rfl⟩ | ⟨-, rfl⟩ | ⟨-, rfl⟩ | ⟨-, rfl⟩ | ⟨-, rfl⟩ | ⟨-, rfl⟩ | ⟨rfl, rfl⟩ := hmem
  · cases hb
  · cases hb
  · cases hb
  · cases hb
  · cases hb
  · cases hb
  · exact ⟨rfl, List.mem_singleton.1 hb⟩

theorem builtin_not_cyclic (key : String) : ¬ builtin.Cyclic key := by
  intro h
  obtain ⟨_, hfirst, -⟩ := TransGen.head'_iff.1 h
  obtain ⟨_, -, hlast⟩ := TransGen.tail'_iff.1 h
  have heq := (eq_of_builtin_requires hfirst).1.symm.trans (eq_of_builtin_requires hlast).2
  exact absurd heq (by decide)

/-- A request leads to no unregistered key that is not its own. -/
theorem mem_of_builtin_reachable {key : String} (h : builtin.Reachable keys key)
    (hunknown : builtin.contains key = false) : key ∈ keys := by
  obtain ⟨requested, hmem, hpath⟩ := h
  cases hpath with
  | refl => exact hmem
  | tail _ hlast =>
    rw [(eq_of_builtin_requires hlast).2] at hunknown
    exact absurd hunknown (by decide)

/-- Built-in keys are resolved unless one of them is not registered. -/
theorem builtin_resolve_cases (keys : List String) :
    ((∀ key ∈ keys, builtin.contains key = true) ∧
      ∃ resolved, builtin.resolve keys = .ok resolved) ∨
    ∃ key ∈ keys, builtin.contains key = false ∧
      builtin.resolve keys = .error (builtin.unknown key) := by
  cases hresolve : builtin.resolve keys with
  | ok resolved =>
    obtain ⟨hordered, hreachable⟩ := resolve_ok hresolve
    refine .inl ⟨fun key hkey => ?_, resolved, rfl⟩
    exact hordered.registered key ((hreachable key).2 (.of_mem hkey))
  | error e =>
    obtain ⟨key, hkey, ⟨rfl, hunknown⟩ | ⟨-, hcyclic⟩⟩ := visit_error (by simp) hresolve
    · exact .inr ⟨key, mem_of_builtin_reachable hkey hunknown, hunknown, rfl⟩
    · exact absurd hcyclic (builtin_not_cyclic key)

private theorem builtinCheck_cases (p : Properties) (key : String) :
    ((key ∈ vehicleKeys → ∀ v, p.text? Vehicle.blockFordsKey = some v →
      Text.trim v = "true" ∨ Text.trim v = "false") ∧ builtinCheck p key = .ok ()) ∨
    key ∈ vehicleKeys ∧ ∃ v, p.text? Vehicle.blockFordsKey = some v ∧
      ¬ (Text.trim v = "true" ∨ Text.trim v = "false") ∧
      builtinCheck p key = .error (.config (.notBoolean Vehicle.blockFordsKey v)) := by
  rw [builtinCheck]
  by_cases hkey : key ∈ vehicleKeys
  · rw [if_pos hkey]
    obtain ⟨hflag, b, hb⟩ | ⟨v, htext, hbad, herror⟩ :=
      p.getFlag_cases Vehicle.blockFordsKey false
    · exact .inl ⟨fun _ => hflag, by rw [hb]; rfl⟩
    · exact .inr ⟨hkey, v, htext, hbad, by rw [herror]; rfl⟩
  · rw [if_neg hkey]
    exact .inl ⟨fun hvehicle => absurd hvehicle hkey, rfl⟩

/-- Assembling built-in keys succeeds exactly if all of them are registered and, in case they lead
    to a vehicle, it can be told whether fords bar a way. The layout then has the resolved keys in
    order and the pipeline one parser for each of them in the same order, which writes that value
    alone. An unregistered key and an unreadable property are the only causes of a failure. -/
theorem builtin_assemble_wired (keys : List String) (p : Properties) :
    ((∃ a, builtin.assemble keys p = .ok a) ↔
      (∀ key ∈ keys, builtin.contains key = true) ∧
      ((∃ key ∈ vehicleKeys, builtin.Reachable keys key) →
        ∀ v, p.text? Vehicle.blockFordsKey = some v →
          Text.trim v = "true" ∨ Text.trim v = "false")) ∧
    (∀ a, builtin.assemble keys p = .ok a →
      builtin.resolve keys = .ok a.layout.names ∧
      a.pipeline.parsers.map TagParser.writes = a.layout.names.map (fun name => [name]) ∧
      a.pipeline.intsPerEdge = a.layout.intsPerEdge) ∧
    ∀ e, builtin.assemble keys p = .error e →
      (∃ key ∈ keys, builtin.contains key = false ∧ e = builtin.unknown key) ∨
      ∃ v, p.text? Vehicle.blockFordsKey = some v ∧
        e = .config (.notBoolean Vehicle.blockFordsKey v) := by
  obtain ⟨hregistered, resolved, hresolve⟩ | ⟨key, hkey, hunknown, hresolve⟩ :=
    builtin_resolve_cases keys
  · obtain ⟨-, hreachable⟩ := resolve_ok hresolve
    obtain ⟨hchecks, a, hassemble, rfl, hwrites, hwidth⟩ | ⟨key, hkey, e, he, hassemble⟩ :=
      (builtin_supplies p).assemble_cases hresolve
    · rw [hassemble]
      refine ⟨iff_of_true ⟨a, rfl⟩ ⟨hregistered, ?_⟩, ?_, nofun⟩
      · rintro ⟨key, hvehicle, hkey⟩
        have hcheck := hchecks key ((hreachable key).2 hkey)
        obtain ⟨hflag, -⟩ | ⟨-, v, -, -, herror⟩ := builtinCheck_cases p key
        · exact hflag hvehicle
        · rw [hcheck] at herror
          cases herror
      · rintro a ⟨⟩
        exact ⟨hresolve, hwrites, hwidth⟩
    · rw [hassemble]
      obtain ⟨-, hok⟩ | ⟨hvehicle, v, htext, hbad, herror⟩ := builtinCheck_cases p key
      · rw [hok] at he
        cases he
      · obtain rfl := Except.error.inj (he.symm.trans herror)
        refine ⟨iff_of_false nofun fun hvalid => hbad ?_, nofun, ?_⟩
        · exact hvalid.2 ⟨key, hvehicle, (hreachable key).1 hkey⟩ v htext
        · rintro e ⟨⟩
          exact .inr ⟨v, htext, rfl⟩
  · have hassemble : builtin.assemble keys p = .error (builtin.unknown key) := by
      rw [assemble, hresolve]
      rfl
    rw [hassemble]
    refine ⟨iff_of_false nofun fun hvalid => ?_, nofun, ?_⟩
    · rw [hvalid.1 key hkey] at hunknown
      cases hunknown
    · rintro e ⟨⟩
      exact .inl ⟨key, hkey, hunknown, rfl⟩

end Registry

end EdgeAttributes
