import EdgeAttributes.Proofs.Registry.Growth
import EdgeAttributes.Registry.Builtin

namespace EdgeAttributes.Registry

variable {r : Registry}

/-- Keys that are done are passed over, whatever path has led to them. -/
theorem visit_of_subset {path keys done : List String} (h : keys ⊆ done) :
    r.visit path keys done = .ok done := by
  induction keys with
  | nil => exact visit_nil path done
  | cons key rest ih =>
    obtain ⟨hkey, hrest⟩ := List.cons_subset.1 h
    rw [visit_of_mem hkey, ih hrest]

namespace Ordered

variable {done : List String} {key : String}

/-- An order of visit may end before its last key. -/
theorem of_snoc (h : r.Ordered (done ++ [key])) : r.Ordered done where
  nodup := h.nodup.of_append_left
  registered k hk := h.registered k (List.mem_append_left _ hk)
  required_before before k after heq :=
    h.required_before before k (after ++ [key]) (by rw [heq, List.append_assoc, List.cons_append])

/-- The last key of an order of visit is the next one that a visit of it would add. -/
theorem visit_last (h : r.Ordered (done ++ [key])) :
    r.visit [] [key] done = .ok (done ++ [key]) := by
  have hkey : key ∉ done := fun hmem =>
    (List.nodup_append.1 h.nodup).2.2 key hmem key (List.mem_singleton_self key) rfl
  obtain ⟨recipe, hrecipe⟩ : ∃ recipe, r.recipe? key = some recipe := by
    rw [← Option.isSome_iff_exists, ← contains_eq_isSome]
    exact h.registered key (List.mem_append_right _ (List.mem_singleton_self key))
  have hrequired : recipe.required ⊆ done := fun b hb =>
    h.required_before done key [] rfl b ⟨recipe, hrecipe, hb⟩
  rw [visit_of_recipe hkey List.not_mem_nil hrecipe, visit_of_subset hrequired]
  exact visit_nil [] (done ++ [key])

/-- A request for an order of visit is answered by that order itself. -/
theorem resolve_eq (h : r.Ordered done) : r.resolve done = .ok done := by
  induction done using List.reverseRecOn with
  | nil => exact visit_nil [] []
  | append_singleton done key ih =>
    have hfront : r.visit [] done [] = .ok done := ih h.of_snoc
    rw [resolve, visit_append, hfront]
    exact h.visit_last

end Ordered

/-- A key that was requested before, or that is required by one that was, may be requested again at
    any later place. Nothing shows it, neither in the answer nor in how a failure is reported. An
    answer is therefore its own answer, in the same order. -/
theorem resolve_redundant {keys resolved : List String} (h : r.resolve keys = .ok resolved) :
    (∀ k ∈ resolved, ∀ later, r.resolve (keys ++ [k] ++ later) = r.resolve (keys ++ later)) ∧
      r.resolve resolved = .ok resolved := by
  have hkeys : r.visit [] keys [] = .ok resolved := h
  refine ⟨fun k hk later => ?_, (resolve_ok h).1.resolve_eq⟩
  calc r.resolve (keys ++ [k] ++ later)
      = r.visit [] (k :: later) resolved := by
        rw [resolve, List.append_assoc, visit_append, hkeys]
        rfl
    _ = r.visit [] later resolved := visit_of_mem hk
    _ = r.resolve (keys ++ later) := by
        rw [resolve, visit_append, hkeys]
        rfl

private theorem resolve_mopedAccess :
    builtin.resolve ["moped_access"] = .ok ["moped", "moped_access"] := by
  have haccess : builtin.recipe? "moped_access" =
      some (.access "moped" Vehicle.mopedOf ["moped"]) := rfl
  have htag : builtin.recipe? "moped" =
      some (.plain (Declaration.enum Moped false) TagParser.mopedOf) := rfl
  simp [resolve, visit_nil, visit_of_recipe, haccess, htag, Recipe.access, Recipe.plain,
    Except.bind]

/-- The tag that the access of mopeds requires may be named as well, in front of a key that is not
    registered: that one is reported as it would be without the tag. -/
theorem resolve_redundant_moped :
    builtin.resolve ["moped_access"] = .ok ["moped", "moped_access"] ∧
      builtin.resolve ["moped_access", "moped", "mopd"] = .error (builtin.unknown "mopd") ∧
      builtin.resolve ["moped", "moped_access"] = .ok ["moped", "moped_access"] := by
  obtain ⟨hredundant, hagain⟩ := resolve_redundant resolve_mopedAccess
  refine ⟨resolve_mopedAccess, ?_, hagain⟩
  have hunknown : builtin.resolve ["moped_access", "mopd"] = .error (builtin.unknown "mopd") := by
    have hvisit : builtin.visit [] ["moped_access"] [] = .ok ["moped", "moped_access"] :=
      resolve_mopedAccess
    have hnone : builtin.recipe? "mopd" = none := rfl
    rw [resolve, ← List.singleton_append, visit_append, hvisit]
    exact visit_of_unknown (by decide) List.not_mem_nil hnone
  exact (hredundant "moped" (by simp) ["mopd"]).trans hunknown

end EdgeAttributes.Registry
