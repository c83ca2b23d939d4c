import EdgeAttributes.ImportConfig
import Mathlib.Logic.Basic

namespace EdgeAttributes.ImportConfig.Settings

open Toml (Statement)

variable {s t s' : Settings} {statement : Statement} {statements : List Statement}

/-- What statements leave of the settings before them. Keys stay once they are set, and only the
    header of the properties makes properties of the entries behind it. -/
structure Keeps (statements : List Statement) (s s' : Settings) : Prop where
  keys : ∀ keys, s.keys = some keys → s'.keys = some keys
  opening : Statement.header ["properties"] ∉ statements → s.opening ≠ some .header →
    s'.opening ≠ some .header

theorem Keeps.refl (s : Settings) : Keeps [] s s :=
  ⟨fun _ hkeys => hkeys, fun _ hopening => hopening⟩

theorem Keeps.cons (hstep : Keeps [statement] s t) (hrest : Keeps statements t s') :
    Keeps (statement :: statements) s s' := by
  refine ⟨fun keys hkeys => hrest.keys keys (hstep.keys keys hkeys), fun hheader hopening => ?_⟩
  obtain ⟨hfirst, hlater⟩ := List.ne_and_not_mem_of_not_mem_cons hheader
  exact hrest.opening hlater (hstep.opening (by simpa using hfirst) hopening)

theorem setKeys?_eq_some {keys : List String} (h : s.setKeys? keys = some s') :
    s.keys = none ∧ s' = { s with keys := some keys } := by
  unfold setKeys? at h
  split at h
  · cases h
  · next hunset => exact ⟨by simpa using hunset, (Option.some.inj h).symm⟩

theorem begin?_eq_some {opening : Opening} (h : s.begin? opening = some s') :
    s' = { s with opening := some opening } := by
  unfold begin? at h
  split at h
  · cases h
  · exact (Option.some.inj h).symm

theorem addProperty?_eq_some {path : Toml.Path} {value : Scalar}
    (h : s.addProperty? path value = some s') : s'.keys = s.keys ∧ s'.opening = s.opening := by
  unfold addProperty? at h
  split at h
  · split at h
    · cases h
    · obtain rfl := Option.some.inj h
      exact ⟨rfl, rfl⟩
  · cases h

theorem foldlM_addProperty?_eq_some {table : List (Toml.Path × Scalar)}
    (h : table.foldlM (fun s (path, v) => s.addProperty? path v) s = some s') :
    s'.keys = s.keys ∧ s'.opening = s.opening := by
  induction table generalizing s with
  | nil =>
    obtain rfl := Option.some.inj h
    exact ⟨rfl, rfl⟩
  | cons entry table ih =>
    obtain ⟨t, hadd, hrest⟩ := Option.bind_eq_some_iff.1 h
    obtain ⟨hkeys, hopening⟩ := addProperty?_eq_some hadd
    exact ⟨(ih hrest).1.trans hkeys, (ih hrest).2.trans hopening⟩

theorem keeps_of_setKeys? {keys : List String} (h : s.setKeys? keys = some s') :
    Keeps statements s s' := by
  obtain ⟨hunset, rfl⟩ := setKeys?_eq_some h
  exact ⟨fun keys hkeys => by simp [hunset] at hkeys, fun _ hopening => hopening⟩

/-- Properties are added behind a beginning that is not their header. -/
theorem keeps_of_added (hadded : s'.keys = t.keys ∧ s'.opening = t.opening)
    (hkeys : t.keys = s.keys) (hopening : t.opening ≠ some .header) : Keeps statements s s' :=
  ⟨fun _ hset => (hadded.1.trans hkeys).trans hset, fun _ _ => hadded.2.trans_ne hopening⟩

theorem keeps_of_take? (h : s.take? statement = some s') : Keeps [statement] s s' := by
  revert h
  fun_cases take? s statement with
  | case1 =>
    intro h
    obtain rfl := begin?_eq_some h
    exact ⟨fun _ hkeys => hkeys, fun hheader => absurd List.mem_cons_self hheader⟩
  | case3 path hproperty v =>
    intro h
    obtain ⟨hkeys, -⟩ := addProperty?_eq_some h
    exact ⟨fun _ hset => hkeys.trans hset, fun _ hopening => absurd hproperty hopening⟩
  | case5 | case6 => exact keeps_of_setKeys?
  | case7 =>
    intro h
    obtain ⟨t, hbegin, hadd⟩ := Option.bind_eq_some_iff.1 h
    obtain rfl := begin?_eq_some hbegin
    exact keeps_of_added (foldlM_addProperty?_eq_some hadd) rfl (by simp)
  | case8 =>
    intro h
    obtain ⟨t, hbegin, hadd⟩ := Option.bind_eq_some_iff.1 h
    obtain rfl := begin?_eq_some hbegin
    exact keeps_of_added (addProperty?_eq_some hadd) rfl (by simp)
  | case10 =>
    intro h
    exact keeps_of_added (addProperty?_eq_some h) rfl (by simp)
  | case2 | case4 | case9 | case11 => simp

theorem keeps_of_foldlM (h : statements.foldlM take? s = some s') : Keeps statements s s' := by
  induction statements generalizing s with
  | nil =>
    obtain rfl := Option.some.inj h
    exact .refl s
  | cons statement statements ih =>
    obtain ⟨t, htake, hrest⟩ := Option.bind_eq_some_iff.1 h
    exact (keeps_of_take? htake).cons (ih hrest)

end EdgeAttributes.ImportConfig.Settings
