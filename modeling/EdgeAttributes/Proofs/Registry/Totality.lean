import EdgeAttributes.Proofs.Registry.Builtin

namespace EdgeAttributes

variable {width : Nat} {d : Layout.Draft}

theorem TagParser.Follows.exists_run_eq_ok {q : TagParser} {b : Behaviour} {f : Field}
    (h : q.Follows b f) (hf : f ∈ d.freeze.fields) (hwidth : d.freeze.intsPerEdge ≤ width)
    (edge : Nat) (way : Way) (flags : RelationFlags) (s : EdgeStorage width) :
    ∃ s', q.run edge way flags s = .ok () s' := by
  obtain ⟨contents, hreads⟩ := d.exists_reads hwidth s
  obtain ⟨s', hset, -⟩ := hreads.setPatterns hwidth hf h.twoDirections edge (h.fits way flags)
  exact ⟨s', by rw [h.run, hset]⟩

namespace Pipeline.Follows

variable {p : Pipeline} {behaviour : String → Behaviour} {q : TagParser}

theorem exists_of_mem (h : p.Follows behaviour d) (hq : q ∈ p.parsers) :
    ∃ f ∈ d.freeze.fields, q.Follows (behaviour f.name) f := by
  have hparsers := h.parsers
  generalize d.freeze.names = names, p.parsers = parsers at hparsers hq
  induction hparsers with
  | nil => cases hq
  | cons hfollows _ ih =>
    cases hq with
    | head =>
      obtain ⟨f, hf, rfl, hfollows⟩ := hfollows
      exact ⟨f, hf, hfollows⟩
    | tail _ hq => exact ih hq

/-- Storage that is wide enough is accepted and the decision returned, and storage stays as it is if
    that is to skip the way. -/
theorem exists_handle_eq_ok (h : p.Follows behaviour d) (hwidth : d.freeze.intsPerEdge ≤ width)
    (edge : Nat) (way : Way) (flags : RelationFlags) (s : EdgeStorage width) :
    ∃ s', p.handle edge way flags s = .ok (p.decide way) s' ∧
      (p.decide way = .skip → s' = s) := by
  obtain ⟨contents, hreads⟩ := d.exists_reads hwidth s
  obtain ⟨s', hhandle, -⟩ := h.handle hwidth ⟨edge, way, flags⟩ hreads
  refine ⟨s', hhandle, fun hskip => ?_⟩
  rw [handle_of_skip (h.intsPerEdge ▸ hwidth) hskip] at hhandle
  exact (EStateM.Result.ok.inj hhandle).2.symm

end Pipeline.Follows

namespace Registry

/-- Pipelines of built-in parsers take every way. Storage of too few words is refused with both
    numbers and stays as it is. On any other storage, whatever it holds, no parser is refused a
    value or comes upon a word that is not there, and the decision of the vehicles is returned. A
    way that is skipped leaves no trace. -/
theorem builtin_handle_total (p : Properties) {keys : List String} {a : Assembly}
    (h : builtin.assemble keys p = .ok a) (edge : Nat) (way : Way) (flags : RelationFlags)
    (s : EdgeStorage width) :
    (width < a.layout.intsPerEdge → a.pipeline.handle edge way flags s =
      .error (.error (.storageTooNarrow a.layout.intsPerEdge width)) s) ∧
    (a.layout.intsPerEdge ≤ width →
      (∃ s', a.pipeline.handle edge way flags s = .ok (a.pipeline.decide way) s' ∧
        (a.pipeline.decide way = .skip → s' = s)) ∧
      ∀ q ∈ a.pipeline.parsers, ∀ t : EdgeStorage width,
        ∃ t', q.run edge way flags t = .ok () t') := by
  obtain ⟨behaviour, hportable, -⟩ := builtin_portable p
  obtain ⟨d, hlayout, hfollows, -, -⟩ := assemble_eq_ok hportable h
  rw [hlayout, ← hfollows.intsPerEdge]
  refine ⟨fun hnarrow => ?_, fun hwide => ⟨?_, fun q hq t => ?_⟩⟩
  · rw [Pipeline.handle_of_lt hnarrow]
    rfl
  · exact hfollows.exists_handle_eq_ok (hfollows.intsPerEdge ▸ hwide) edge way flags s
  · obtain ⟨f, hf, hq⟩ := hfollows.exists_of_mem hq
    exact hq.exists_run_eq_ok hf (hfollows.intsPerEdge ▸ hwide) edge way flags t

private theorem resolve_speedAndCar :
    builtin.resolve ["max_speed", "car_access"] = .ok ["max_speed", "car_access"] := by
  have hspeed : builtin.recipe? "max_speed" =
      some (.plain Declaration.maxSpeed TagParser.maxSpeedOf) := rfl
  have hcar : builtin.recipe? "car_access" = some (.access "car" Vehicle.carOf []) := rfl
  simp [resolve, visit_nil, visit_of_recipe, hspeed, hcar, Recipe.access, Recipe.plain, Except.bind]

private def hastyRoad : Way :=
  .ofTags 1 [("highway", "primary"), ("maxspeed", "99999999999999999999999999 mph")]

/-- A speed beyond all bounds is stored like any other, but only where there is a word for it. -/
theorem builtin_handle_total_hasty : ∃ a,
    builtin.assemble ["max_speed", "car_access"] .empty = .ok a ∧
    a.pipeline.handle 2 hastyRoad Layout.createRelationFlags (EdgeStorage.zeroed 0 3) =
      .error (.error (.storageTooNarrow 1 0)) (EdgeStorage.zeroed 0 3) ∧
    ∃ s', a.pipeline.handle 2 hastyRoad Layout.createRelationFlags (EdgeStorage.zeroed 1 3) =
      .ok .usable s' := by
  have hassemble : ∃ a, builtin.assemble ["max_speed", "car_access"] .empty = .ok a ∧
      a.layout.intsPerEdge = 1 ∧ a.pipeline.decide hastyRoad = .usable := by
    rw [assemble, resolve_speedAndCar]
    exact ⟨_, rfl, rfl, rfl⟩
  obtain ⟨a, hassemble, hwords, hdecide⟩ := hassemble
  obtain ⟨hnarrow, -⟩ := builtin_handle_total .empty hassemble 2 hastyRoad
    Layout.createRelationFlags (EdgeStorage.zeroed 0 3)
  obtain ⟨-, hwide⟩ := builtin_handle_total .empty hassemble 2 hastyRoad
    Layout.createRelationFlags (EdgeStorage.zeroed 1 3)
  obtain ⟨⟨s', hhandle, -⟩, -⟩ := hwide (le_of_eq hwords)
  refine ⟨a, hassemble, ?_, s', hdecide ▸ hhandle⟩
  rw [← hwords]
  exact hnarrow (by rw [hwords]; exact Nat.zero_lt_one)

end Registry

end EdgeAttributes
