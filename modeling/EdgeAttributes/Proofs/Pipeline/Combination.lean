import EdgeAttributes.Proofs.Pipeline.Runs

namespace EdgeAttributes.Pipeline

variable {p p' : Pipeline} {way : Way} {more : List TagParser}

/-- Some parser of the pipeline decides the way, whatever its decision. -/
def Decides (p : Pipeline) (way : Way) : Prop := ∃ q ∈ p.parsers, q.decision way ≠ none

/-- Every parser that decides the way skips it. -/
def AllSkip (p : Pipeline) (way : Way) : Prop :=
  ∀ q ∈ p.parsers, ∀ d, q.decision way = some d → d = .skip

theorem decide_special_iff :
    p.decide way = .special ↔ ∃ q ∈ p.parsers, q.decision way = some .special := by
  rw [decide, Decision.combineAll_eq_special_iff, List.mem_filterMap]

theorem decide_skip_iff : p.decide way = .skip ↔ p.Decides way ∧ p.AllSkip way := by
  rw [decide, Decision.combineAll_eq_skip_iff]
  constructor
  · rintro ⟨hskip, hall⟩
    obtain ⟨q, hq, hdecision⟩ := List.mem_filterMap.1 hskip
    refine ⟨⟨q, hq, by simp [hdecision]⟩, fun q' hq' d hd => ?_⟩
    exact hall d (List.mem_filterMap.2 ⟨q', hq', hd⟩)
  · rintro ⟨⟨q, hq, hne⟩, hall⟩
    obtain ⟨d, hdecision⟩ := Option.ne_none_iff_exists'.1 hne
    have hskip := hall q hq d hdecision
    subst hskip
    refine ⟨List.mem_filterMap.2 ⟨q, hq, hdecision⟩, fun d hd => ?_⟩
    obtain ⟨q', hq', hd⟩ := List.mem_filterMap.1 hd
    exact hall q' hq' d hd

/-- The decision comes from which parsers decide, wherever they stand and however often. -/
theorem decide_eq_of_deciding (h : ∀ q, q.decision way ≠ none →
    (q ∈ p'.parsers ↔ q ∈ p.parsers)) : p'.decide way = p.decide way := by
  apply Decision.combineAll_congr
  intro d
  rw [List.mem_filterMap, List.mem_filterMap]
  refine exists_congr fun q => and_congr_left fun hd => h q ?_
  rw [hd]
  exact Option.some_ne_none d

/-- A decision other than to skip stands if parsers are added to one that decided. -/
theorem decide_ne_skip_of_subset (hsubset : ∀ q ∈ p.parsers, q ∈ p'.parsers)
    (hdecides : p.Decides way) (hne : p.decide way ≠ .skip) : p'.decide way ≠ .skip := by
  intro hskip
  obtain ⟨-, hall⟩ := decide_skip_iff.1 hskip
  exact hne (decide_skip_iff.2 ⟨hdecides, fun q hq => hall q (hsubset q hq)⟩)

/-- The decision of a pipeline, for every list of parsers and every way. A way is special if and
    only if some parser says so, and skipped if and only if some parser decides it and all of those
    skip it; any other way is usable, also where no parser decides. The order of the parsers does
    not matter, nor do repeated parsers or those that decide nothing. More parsers never skip a way
    that some parser decided already and that was not skipped. -/
theorem decide_combination (p : Pipeline) (way : Way) :
    (p.decide way = .special ↔ ∃ q ∈ p.parsers, q.decision way = some .special) ∧
    (p.decide way = .skip ↔ p.Decides way ∧ p.AllSkip way) ∧
    (p.decide way = .usable ↔
      (¬ ∃ q ∈ p.parsers, q.decision way = some .special) ∧
        ¬ (p.Decides way ∧ p.AllSkip way)) ∧
    ∀ (p' : Pipeline) (more : List TagParser), p'.parsers.Perm (p.parsers ++ more) →
      ((∀ q ∈ more, q ∈ p.parsers ∨ q.decision way = none) → p'.decide way = p.decide way) ∧
      (p.Decides way → p.decide way ≠ .skip → p'.decide way ≠ .skip) := by
  refine ⟨decide_special_iff, decide_skip_iff, ?_, fun p' more hperm => ⟨fun hmore => ?_, ?_⟩⟩
  · rw [← decide_special_iff, ← decide_skip_iff]
    cases p.decide way <;> simp
  · apply decide_eq_of_deciding
    intro q hdecides
    rw [hperm.mem_iff, List.mem_append]
    constructor
    · rintro (hq | hq)
      · exact hq
      · exact (hmore q hq).resolve_right hdecides
    · exact Or.inl
  · exact decide_ne_skip_of_subset fun q hq => hperm.mem_iff.2 (List.mem_append_left _ hq)

-- Only where no parser decides may one more parser skip a way that was usable.
example :
    let skipping : TagParser := .ofAssignments "Skipping" [] (fun _ _ => []) fun _ => some .skip
    (Pipeline.ofWidth 1).decide (.ofTags 1 []) = .usable ∧
    (⟨[skipping], .empty, 1⟩ : Pipeline).decide (.ofTags 1 []) = .skip := by
  decide

end EdgeAttributes.Pipeline
