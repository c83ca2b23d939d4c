import EdgeAttributes.Registry
import Mathlib

open Relation

namespace EdgeAttributes.Registry

variable {r : Registry}

/-- One key requires another if its recipe names it. A key without a recipe requires nothing. -/
def Requires (r : Registry) (a b : String) : Prop :=
  ∃ recipe, r.recipe? a = some recipe ∧ b ∈ recipe.required

/-- A key that is requested, or required by one that is reachable. -/
def Reachable (r : Registry) (keys : List String) (k : String) : Prop :=
  ∃ requested ∈ keys, ReflTransGen r.Requires requested k

/-- A key that requires itself, at once or through others. -/
def Cyclic (r : Registry) (k : String) : Prop := TransGen r.Requires k k

theorem Reachable.of_mem {keys : List String} {k : String} (hk : k ∈ keys) : r.Reachable keys k :=
  ⟨k, hk, ReflTransGen.refl⟩

theorem Reachable.mono {keys keys' : List String} {k : String} (hsub : keys ⊆ keys')
    (hk : r.Reachable keys k) : r.Reachable keys' k := by
  obtain ⟨requested, hmem, hpath⟩ := hk
  exact ⟨requested, hsub hmem, hpath⟩

/-- What the requirements of a key reach lies strictly behind the key. -/
theorem Reachable.transGen_of_required {key k : String} {recipe : Recipe}
    (hrecipe : r.recipe? key = some recipe) (hk : r.Reachable recipe.required k) :
    TransGen r.Requires key k := by
  obtain ⟨required, hmem, hpath⟩ := hk
  exact TransGen.head' ⟨recipe, hrecipe, hmem⟩ hpath

theorem Reachable.of_required {key k : String} {rest : List String} {recipe : Recipe}
    (hrecipe : r.recipe? key = some recipe) (hk : r.Reachable recipe.required k) :
    r.Reachable (key :: rest) k :=
  ⟨key, List.mem_cons_self, (hk.transGen_of_required hrecipe).to_reflTransGen⟩

/-- Keys in an order of visit: none twice, all registered, each after everything it requires. -/
structure Ordered (r : Registry) (done : List String) : Prop where
  nodup : done.Nodup
  registered : ∀ k ∈ done, r.contains k = true
  required_before : ∀ before k after, done = before ++ k :: after →
    ∀ b, r.Requires k b → b ∈ before

namespace Ordered

variable {done : List String}

theorem nil : r.Ordered [] where
  nodup := List.nodup_nil
  registered := by simp
  required_before := by simp

/-- A new key may follow once all that it requires is done. -/
theorem snoc (h : r.Ordered done) {key : String} (hkey : key ∉ done)
    (hregistered : r.contains key = true) (hrequired : ∀ b, r.Requires key b → b ∈ done) :
    r.Ordered (done ++ [key]) where
  nodup := List.nodup_append.2 ⟨h.nodup, by simp, by
    intro a ha b hb
    rw [List.mem_singleton.1 hb]
    rintro rfl
    exact hkey ha⟩
  registered := by
    intro k hk
    rcases List.mem_append.1 hk with hk | hk
    · exact h.registered k hk
    · rw [List.mem_singleton.1 hk]
      exact hregistered
  required_before := by
    intro before k after heq b hb
    rcases List.eq_nil_or_concat after with rfl | ⟨after, last, rfl⟩
    · obtain ⟨hbefore, hlast⟩ := List.append_inj' heq rfl
      obtain rfl : key = k := by simpa using hlast
      exact hbefore ▸ hrequired b hb
    · have hsplit : done ++ [key] = (before ++ k :: after) ++ [last] := by simpa using heq
      obtain ⟨hdone, _⟩ := List.append_inj' hsplit rfl
      exact h.required_before before k after hdone b hb

/-- Requirements of a listed key stand at smaller positions. -/
theorem idxOf_lt (h : r.Ordered done) {k b : String} (hk : k ∈ done) (hb : r.Requires k b) :
    b ∈ done ∧ done.idxOf b < done.idxOf k := by
  obtain ⟨before, after, heq, hnot⟩ := List.eq_append_cons_of_mem hk
  have hmem := h.required_before before k after heq b hb
  refine ⟨by simp [heq, hmem], ?_⟩
  rw [heq, List.idxOf_append_of_mem hmem, List.idxOf_append_of_notMem hnot]
  have hlt := List.idxOf_lt_length_iff.2 hmem
  omega

theorem idxOf_lt_of_transGen (h : r.Ordered done) {k b : String} (hk : k ∈ done)
    (hb : TransGen r.Requires k b) : b ∈ done ∧ done.idxOf b < done.idxOf k := by
  induction hb with
  | single hb => exact h.idxOf_lt hk hb
  | tail _ hc ih =>
    obtain ⟨hmem, hlt⟩ := ih
    obtain ⟨hmem', hlt'⟩ := h.idxOf_lt hmem hc
    exact ⟨hmem', hlt'.trans hlt⟩

/-- An order of visit rules out cycles. -/
theorem not_cyclic (h : r.Ordered done) {k : String} (hk : k ∈ done) : ¬ r.Cyclic k := by
  intro hcyclic
  exact lt_irrefl _ (h.idxOf_lt_of_transGen hk hcyclic).2

/-- An order of visit contains all that its keys lead to. -/
theorem mem_of_reachable (h : r.Ordered done) {keys : List String} (hkeys : ∀ k ∈ keys, k ∈ done)
    {k : String} (hk : r.Reachable keys k) : k ∈ done := by
  obtain ⟨requested, hmem, hpath⟩ := hk
  rcases reflTransGen_iff_eq_or_transGen.1 hpath with rfl | hpath
  · exact hkeys _ hmem
  · exact (h.idxOf_lt_of_transGen (hkeys requested hmem) hpath).1

end Ordered

theorem contains_eq_isSome (key : String) : r.contains key = (r.recipe? key).isSome := rfl

section Visit

-- What is suggested for an unknown key plays no part in any of this.
variable [Measures]

theorem visit_nil (path done : List String) : r.visit path [] done = .ok done := by
  rw [visit]

theorem visit_of_mem {path rest done : List String} {key : String} (hmem : key ∈ done) :
    r.visit path (key :: rest) done = r.visit path rest done := by
  rw [visit, if_pos hmem]

theorem visit_of_path {path rest done : List String} {key : String} (hmem : key ∉ done)
    (hpath : key ∈ path) :
    r.visit path (key :: rest) done = .error (.config (.requiresItself key path)) := by
  rw [visit, if_neg hmem, dif_pos hpath]

theorem visit_of_unknown {path rest done : List String} {key : String} (hmem : key ∉ done)
    (hpath : key ∉ path) (hrecipe : r.recipe? key = none) :
    r.visit path (key :: rest) done = .error (r.unknown key) := by
  rw [visit, if_neg hmem, dif_neg hpath]
  split
  · rfl
  · next recipe hsome =>
    rw [hrecipe] at hsome
    cases hsome

theorem visit_of_recipe {path rest done : List String} {key : String} {recipe : Recipe}
    (hmem : key ∉ done) (hpath : key ∉ path) (hrecipe : r.recipe? key = some recipe) :
    r.visit path (key :: rest) done =
      (r.visit (path ++ [key]) recipe.required done).bind fun done =>
        r.visit path rest (done ++ [key]) := by
  rw [visit, if_neg hmem, dif_neg hpath]
  split
  · next hnone =>
    rw [hrecipe] at hnone
    cases hnone
  · next found hfound =>
    obtain rfl : recipe = found := Option.some.inj (hrecipe.symm.trans hfound)
    cases r.visit (path ++ [key]) recipe.required done <;> rfl

/-- A visit that succeeds extends an order of visit by the keys it was given and by nothing they do
    not lead to. The path plays no part in this. -/
theorem visit_ok {path keys done done' : List String} (hdone : r.Ordered done)
    (hvisit : r.visit path keys done = .ok done') :
    r.Ordered done' ∧ done ⊆ done' ∧ keys ⊆ done' ∧
      ∀ k ∈ done', k ∈ done ∨ r.Reachable keys k := by
  induction path, keys, done using visit.induct r generalizing done' with
  | case1 path done =>
    rw [visit_nil] at hvisit
    cases hvisit
    exact ⟨hdone, fun _ h => h, by simp, fun _ h => .inl h⟩
  | case2 path done key rest hmem ih =>
    rw [visit_of_mem hmem] at hvisit
    obtain ⟨hordered, hsub, hrest, hreach⟩ := ih hdone hvisit
    refine ⟨hordered, hsub, List.cons_subset.2 ⟨hsub hmem, hrest⟩, fun k hk => ?_⟩
    exact (hreach k hk).imp_right (Reachable.mono (List.subset_cons_self _ _))
  | case3 path done key rest hmem hpath =>
    rw [visit_of_path hmem hpath] at hvisit
    cases hvisit
  | case4 path done key rest hmem hpath hrecipe =>
    rw [visit_of_unknown hmem hpath hrecipe] at hvisit
    cases hvisit
  | case5 path done key rest hmem hpath recipe hrecipe e herror ih =>
    rw [visit_of_recipe hmem hpath hrecipe, herror] at hvisit
    cases hvisit
  | case6 path done key rest hmem hpath recipe hrecipe inner hinner ih ih' =>
    rw [visit_of_recipe hmem hpath hrecipe, hinner] at hvisit
    obtain ⟨hordered, hsub, hrequired, hreach⟩ := ih hdone hinner
    -- A key that its own requirements had put on the list would be on a cycle.
    have hfresh : key ∉ inner := by
      intro hkey
      have hcyclic := ((hreach key hkey).resolve_left hmem).transGen_of_required hrecipe
      exact hordered.not_cyclic hkey hcyclic
    have hregistered : r.contains key = true := by
      rw [contains_eq_isSome, hrecipe]
      rfl
    have hbefore : ∀ b, r.Requires key b → b ∈ inner := by
      rintro b ⟨found, hfound, hb⟩
      obtain rfl : recipe = found := Option.some.inj (hrecipe.symm.trans hfound)
      exact hrequired hb
    obtain ⟨hordered', hsub', hrest, hreach'⟩ :=
      ih' (hordered.snoc hfresh hregistered hbefore) hvisit
    refine ⟨hordered', fun k hk => hsub' (by simp [hsub hk]),
      List.cons_subset.2 ⟨hsub' (by simp), hrest⟩, fun k hk => ?_⟩
    rcases hreach' k hk with hk | hk
    · rcases List.mem_append.1 hk with hk | hk
      · exact (hreach k hk).imp_right (Reachable.of_required hrecipe)
      · rw [List.mem_singleton.1 hk]
        exact .inr (.of_mem List.mem_cons_self)
    · exact .inr (hk.mono (List.subset_cons_self _ _))

/-- A visit that fails names a key without a recipe or a key on a cycle, and one that the keys at
    hand lead to. Every key on the path must lead to each of them. -/
theorem visit_error {path keys done : List String} {e : Error}
    (hpath : ∀ p ∈ path, ∀ k ∈ keys, TransGen r.Requires p k)
    (hvisit : r.visit path keys done = .error e) :
    ∃ k, r.Reachable keys k ∧
      (e = r.unknown k ∧ r.contains k = false ∨
        (∃ trail, e = .config (.requiresItself k trail)) ∧ r.Cyclic k) := by
  induction path, keys, done using visit.induct r with
  | case1 path done =>
    rw [visit_nil] at hvisit
    cases hvisit
  | case2 path done key rest hmem ih =>
    rw [visit_of_mem hmem] at hvisit
    obtain ⟨k, hk, hcause⟩ := ih (fun p hp k hk => hpath p hp k (List.mem_cons_of_mem _ hk)) hvisit
    exact ⟨k, hk.mono (List.subset_cons_self _ _), hcause⟩
  | case3 path done key rest hmem hkey =>
    rw [visit_of_path hmem hkey] at hvisit
    cases hvisit
    have hcyclic := hpath key hkey key List.mem_cons_self
    exact ⟨key, .of_mem List.mem_cons_self, .inr ⟨⟨path, rfl⟩, hcyclic⟩⟩
  | case4 path done key rest hmem hkey hrecipe =>
    rw [visit_of_unknown hmem hkey hrecipe] at hvisit
    cases hvisit
    refine ⟨key, .of_mem List.mem_cons_self, .inl ⟨rfl, ?_⟩⟩
    rw [contains_eq_isSome, hrecipe]
    rfl
  | case5 path done key rest hmem hkey recipe hrecipe e' herror ih =>
    rw [visit_of_recipe hmem hkey hrecipe, herror] at hvisit
    cases hvisit
    have hdeeper : ∀ p ∈ path ++ [key], ∀ k ∈ recipe.required, TransGen r.Requires p k := by
      intro p hp k hk
      have hlast : r.Requires key k := ⟨recipe, hrecipe, hk⟩
      rcases List.mem_append.1 hp with hp | hp
      · exact (hpath p hp key List.mem_cons_self).tail hlast
      · rw [List.mem_singleton.1 hp]
        exact TransGen.single hlast
    obtain ⟨k, hk, hcause⟩ := ih hdeeper herror
    exact ⟨k, hk.of_required hrecipe, hcause⟩
  | case6 path done key rest hmem hkey recipe hrecipe inner hinner ih ih' =>
    rw [visit_of_recipe hmem hkey hrecipe, hinner] at hvisit
    obtain ⟨k, hk, hcause⟩ := ih' (fun p hp k hk => hpath p hp k (List.mem_cons_of_mem _ hk)) hvisit
    exact ⟨k, hk.mono (List.subset_cons_self _ _), hcause⟩

/-- A list of resolved keys is an order of visit of just the keys that the request leads to. -/
theorem resolve_ok {keys l : List String} (hresolve : r.resolve keys = .ok l) :
    r.Ordered l ∧ ∀ k, k ∈ l ↔ r.Reachable keys k := by
  obtain ⟨hordered, -, hkeys, hreach⟩ := visit_ok Ordered.nil hresolve
  refine ⟨hordered, fun k => ⟨fun hk => ?_, hordered.mem_of_reachable hkeys⟩⟩
  exact (hreach k hk).resolve_left (by simp)

end Visit

/-- Resolving succeeds exactly if the request leads to no unregistered key and to no cycle. The list
    then has the keys the request leads to, each once and after all that it requires, and the two
    causes of a failure are the only ones. -/
theorem resolve_topological_closure (r : Registry) (keys : List String) :
    ((∃ l, r.resolve keys = .ok l) ↔
      ∀ k, r.Reachable keys k → r.contains k = true ∧ ¬ r.Cyclic k) ∧
    (∀ l, r.resolve keys = .ok l → l.Nodup ∧ (∀ k, k ∈ l ↔ r.Reachable keys k) ∧
      ∀ before k after, l = before ++ k :: after → ∀ b, r.Requires k b → b ∈ before) ∧
    ∀ e, r.resolve keys = .error e → ∃ k, r.Reachable keys k ∧
      (e = r.unknown k ∧ r.contains k = false ∨
        (∃ trail, e = .config (.requiresItself k trail)) ∧ r.Cyclic k) := by
  have hfail : ∀ e, r.resolve keys = .error e → ∃ k, r.Reachable keys k ∧
      (e = r.unknown k ∧ r.contains k = false ∨
        (∃ trail, e = .config (.requiresItself k trail)) ∧ r.Cyclic k) :=
    fun e herror => visit_error (by simp) herror
  refine ⟨⟨?_, ?_⟩, ?_, hfail⟩
  · rintro ⟨l, hl⟩ k hk
    obtain ⟨hordered, hmem⟩ := resolve_ok hl
    exact ⟨hordered.registered k ((hmem k).2 hk), hordered.not_cyclic ((hmem k).2 hk)⟩
  · intro hall
    cases hresolve : r.resolve keys with
    | ok l => exact ⟨l, rfl⟩
    | error e =>
      obtain ⟨k, hk, ⟨-, hunknown⟩ | ⟨-, hcyclic⟩⟩ := hfail e hresolve
      · rw [(hall k hk).1] at hunknown
        cases hunknown
      · exact absurd hcyclic (hall k hk).2
  · intro l hl
    obtain ⟨hordered, hmem⟩ := resolve_ok hl
    exact ⟨hordered.nodup, hmem, hordered.required_before⟩

end EdgeAttributes.Registry
