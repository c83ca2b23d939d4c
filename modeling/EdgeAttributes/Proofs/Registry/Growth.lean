import EdgeAttributes.Proofs.Layout.Growth
import EdgeAttributes.Proofs.Registry.Assembly

namespace EdgeAttributes

/-- Where a relation leaves no choice, the partner of the beginning of a list is the beginning of
    the partner of the list. -/
private theorem prefix_of_forall₂ {α β : Type} {R : α → β → Prop} (hunique : Relator.RightUnique R)
    {l l' : List α} {m m' : List β} (hfront : l <+: l') (h : List.Forall₂ R l m)
    (h' : List.Forall₂ R l' m') : m <+: m' := by
  obtain ⟨rest, rfl⟩ := hfront
  have htake : List.Forall₂ R l (m'.take l.length) :=
    (List.forall₂_take_append m' l rest h'.flip).flip
  rw [hunique.forall₂ h htake]
  exact List.take_prefix _ _

namespace Registry

variable {r : Registry} {p : Properties}

/-- Keys that come later are visited in the state that the others leave. What the others require may
    be required again. -/
theorem visit_append (path keys later done : List String) :
    r.visit path (keys ++ later) done =
      (r.visit path keys done).bind fun done => r.visit path later done := by
  induction path, keys, done using visit.induct r with
  | case1 path done => rw [visit_nil]; rfl
  | case2 path done key rest hmem ih =>
    rw [List.cons_append, visit_of_mem hmem, visit_of_mem hmem, ih]
  | case3 path done key rest hmem hpath =>
    rw [List.cons_append, visit_of_path hmem hpath, visit_of_path hmem hpath]
    rfl
  | case4 path done key rest hmem hpath hrecipe =>
    rw [List.cons_append, visit_of_unknown hmem hpath hrecipe, visit_of_unknown hmem hpath hrecipe]
    rfl
  | case5 path done key rest hmem hpath recipe hrecipe e herror ih =>
    rw [List.cons_append, visit_of_recipe hmem hpath hrecipe, visit_of_recipe hmem hpath hrecipe,
      herror]
    rfl
  | case6 path done key rest hmem hpath recipe hrecipe inner hinner ih ih' =>
    rw [List.cons_append, visit_of_recipe hmem hpath hrecipe, visit_of_recipe hmem hpath hrecipe,
      hinner]
    exact ih'

/-- A visit takes back no key and puts none in front of another. -/
theorem prefix_of_visit {path keys done done' : List String}
    (hvisit : r.visit path keys done = .ok done') : done <+: done' := by
  induction path, keys, done using visit.induct r generalizing done' with
  | case1 path done =>
    rw [visit_nil] at hvisit
    cases hvisit
    exact List.prefix_rfl
  | case2 path done key rest hmem ih =>
    rw [visit_of_mem hmem] at hvisit
    exact ih hvisit
  | case3 path done key rest hmem hpath =>
    rw [visit_of_path hmem hpath] at hvisit
    cases hvisit
  | case4 path done key rest hmem hpath hrecipe =>
    rw [visit_of_unknown hmem hpath hrecipe] at hvisit
    cases hvisit
  | case5 path done key rest hmem hpath recipe hrecipe e herror ih =>
    rw [visit_of_recipe hmem hpath hrecipe, herror] at hvisit
    cases hvisit
  | case6 path done key rest hmem hpath recipe hrecipe inner hinner ih ih' =>
    rw [visit_of_recipe hmem hpath hrecipe, hinner] at hvisit
    calc done <+: inner := ih hinner
      _ <+: inner ++ [key] := List.prefix_append _ _
      _ <+: done' := ih' hvisit

/-- Where a request is resolved, so is its beginning, to the beginning of the same list. -/
theorem resolve_append_eq_ok {keys later resolved' : List String}
    (h : r.resolve (keys ++ later) = .ok resolved') :
    ∃ resolved, r.resolve keys = .ok resolved ∧ resolved <+: resolved' := by
  rw [resolve, visit_append] at h
  obtain ⟨resolved, hkeys, hlater⟩ := bind_eq_ok_iff.1 h
  exact ⟨resolved, hkeys, prefix_of_visit hlater⟩

/-- What a key declares leaves no choice. -/
private theorem rightUnique_declares :
    Relator.RightUnique fun (key : String) (decl : Declaration) =>
      ∃ recipe, r.recipe? key = some recipe ∧ recipe.declare p = .ok decl := by
  rintro key decl decl' ⟨recipe, hfound, hdecl⟩ ⟨recipe', hfound', hdecl'⟩
  obtain rfl : recipe = recipe' := Option.some.inj (hfound.symm.trans hfound')
  exact Except.ok.inj (hdecl.symm.trans hdecl')

theorem declarations_isPrefix {keys keys' : List String} (hfront : keys <+: keys')
    {d d' : Layout.Draft} (h : r.draft p keys = .ok d) (h' : r.draft p keys' = .ok d') :
    d.declarations <+: d'.declarations :=
  prefix_of_forall₂ rightUnique_declares hfront (draft_eq_ok h) (draft_eq_ok h')

/-- A request may grow at its end without moving anything that is stored. If the longer one can be
    resolved, so can the shorter one, to keys that stand in front of the others. If both can be
    assembled, the values of the shorter one come first in the longer one, declared alike and in the
    same slots, and neither words nor bits become fewer. Nothing is asked of the recipes. -/
theorem assemble_append_extends (r : Registry) (p : Properties) (keys later : List String) :
    (∀ resolved', r.resolve (keys ++ later) = .ok resolved' →
      ∃ resolved, r.resolve keys = .ok resolved ∧ resolved <+: resolved') ∧
    ∀ a a', r.assemble keys p = .ok a → r.assemble (keys ++ later) p = .ok a' →
      a.layout.Extends a'.layout := by
  refine ⟨fun _ => resolve_append_eq_ok, fun a a' h h' => ?_⟩
  obtain ⟨resolved, hresolve, h⟩ := bind_eq_ok_iff.1 h
  obtain ⟨d, hdraft, h⟩ := bind_eq_ok_iff.1 h
  obtain ⟨q, -, h⟩ := bind_eq_ok_iff.1 h
  obtain ⟨resolved', hresolve', h'⟩ := bind_eq_ok_iff.1 h'
  obtain ⟨d', hdraft', h'⟩ := bind_eq_ok_iff.1 h'
  obtain ⟨q', -, h'⟩ := bind_eq_ok_iff.1 h'
  cases h
  cases h'
  obtain ⟨first, hfirst, hfront⟩ := resolve_append_eq_ok hresolve'
  obtain rfl : resolved = first := Except.ok.inj (hresolve.symm.trans hfirst)
  exact Layout.Draft.extends_freeze (declarations_isPrefix hfront hdraft hdraft')

end Registry

end EdgeAttributes
