import EdgeAttributes.Proofs.Pipeline.Behaviour
import EdgeAttributes.Proofs.Pipeline.Operations

namespace EdgeAttributes

variable {width : Nat}

namespace Decision

/-- A combined decision depends on which decisions there are, neither on their order nor on their
    number. -/
theorem combineAll_eq (l : List Decision) : combineAll l =
    if special ∈ l then special else if skip ∈ l ∧ usable ∉ l then skip else usable := by
  cases l with
  | nil => rfl
  | cons d ds =>
    rw [combineAll]
    induction ds generalizing d with
    | nil => cases d <;> rfl
    | cons d' ds ih =>
      rw [List.foldl_cons, ih]
      cases d <;> cases d' <;> simp [combine]

theorem combineAll_congr {l l' : List Decision} (h : ∀ d, d ∈ l ↔ d ∈ l') :
    combineAll l = combineAll l' := by
  simp only [combineAll_eq, h]

/-- One special decision makes the combined one special, and nothing else does. -/
theorem combineAll_eq_special_iff {l : List Decision} : combineAll l = special ↔ special ∈ l := by
  rw [combineAll_eq]
  split_ifs with hspecial hskip
  · exact iff_of_true rfl hspecial
  · exact iff_of_false nofun hspecial
  · exact iff_of_false nofun hspecial

/-- Vehicles skip a way together only if there is one and each of them skips it. -/
theorem combineAll_eq_skip_iff {l : List Decision} :
    combineAll l = skip ↔ skip ∈ l ∧ ∀ d ∈ l, d = skip := by
  rw [combineAll_eq]
  constructor
  · intro h
    split_ifs at h with hspecial hskip
    refine ⟨hskip.1, fun d hd => ?_⟩
    cases d with
    | skip => rfl
    | usable => exact absurd hd hskip.2
    | special => exact absurd hd hspecial
  · rintro ⟨hskip, hall⟩
    have hspecial : special ∉ l := fun h => by cases hall _ h
    have husable : usable ∉ l := fun h => by cases hall _ h
    rw [if_neg hspecial, if_pos ⟨hskip, husable⟩]

end Decision

/-- A way that is handed to a pipeline for an edge. -/
structure Call where
  edge : Nat
  way : Way
  flags : RelationFlags

/-- Contents after a call that was decided: a skipped way changes nothing, and any other fills every
    value of its edge. -/
def Contents.step (behaviour : String → Behaviour) (decision : Decision) (call : Call)
    (contents : Contents) : Contents := fun name edge reverse =>
  if decision.isSkip = false ∧ call.edge = edge then
    (behaviour name).overlay reverse ((behaviour name).patterns call.way call.flags)
      (contents name edge reverse)
  else contents name edge reverse

/-- Contents after calls that were decided in a given way. -/
def Contents.run (behaviour : String → Behaviour) (decide : Way → Decision) (calls : List Call)
    (contents : Contents) : Contents :=
  calls.foldl (fun contents call => contents.step behaviour (decide call.way) call) contents

namespace Pipeline

/-- Hand ways to a pipeline one after the other. -/
def handleAll (p : Pipeline) (calls : List Call) : Edit width (List Decision) :=
  calls.mapM fun call => p.handle call.edge call.way call.flags

/-- A pipeline has a parser for every value of a layout, and each follows the behaviour of its
    value. -/
structure Follows (p : Pipeline) (behaviour : String → Behaviour) (d : Layout.Draft) : Prop where
  intsPerEdge : p.intsPerEdge = d.freeze.intsPerEdge
  parsers : List.Forall₂ (fun name q => ∃ f ∈ d.freeze.fields, f.name = name ∧
    q.Follows (behaviour name) f) d.freeze.names p.parsers

namespace Follows

variable {p : Pipeline} {behaviour : String → Behaviour} {d : Layout.Draft}

/-- The vehicles among the values decide a way, wherever their parsers stand. -/
theorem decide_eq (h : p.Follows behaviour d) (way : Way) : p.decide way =
    Decision.combineAll (d.freeze.names.filterMap fun name => (behaviour name).decision way) := by
  have hparsers := h.parsers
  rw [Pipeline.decide]
  congr 1
  generalize d.freeze.names = names, p.parsers = parsers at hparsers
  induction hparsers with
  | nil => rfl
  | cons hfollows _ ih =>
    obtain ⟨f, _, _, hfollows⟩ := hfollows
    rw [List.filterMap_cons, List.filterMap_cons, hfollows.decision, ih]

/-- One call returns the decision of the pipeline and steps the contents, in every storage that is
    wide enough. -/
theorem handle (h : p.Follows behaviour d) (hwidth : d.freeze.intsPerEdge ≤ width) (call : Call)
    {s : EdgeStorage width} {contents : Contents} (hreads : d.Reads s contents) :
    ∃ s', p.handle call.edge call.way call.flags s = .ok (p.decide call.way) s' ∧
      d.Reads s' (contents.step behaviour (p.decide call.way) call) := by
  have hwide : p.intsPerEdge ≤ width := h.intsPerEdge ▸ hwidth
  by_cases hskip : p.decide call.way = .skip
  · refine ⟨s, ?_, hreads.congr fun f _ => ?_⟩
    · rw [handle_of_skip hwide hskip, hskip]
      rfl
    · funext edge reverse
      simp [Contents.step, hskip, Decision.isSkip]
  · obtain ⟨s', hrun, hreads'⟩ :=
      hreads.runParsers hwidth h.parsers d.nodup_names call.edge call.way call.flags
    refine ⟨s', ?_, hreads'.congr fun f hf => ?_⟩
    · rw [handle_of_ne_skip hwide hskip]
      exact Edit.bind_eq_ok_iff.2 ⟨(), s', hrun, rfl⟩
    · have hname : f.name ∈ d.freeze.names := List.mem_map_of_mem hf
      funext edge reverse
      simp [Contents.step, Contents.fill, hskip, hname, Decision.isSkip]

/-- Any calls, in any order and on any edges, return the decisions of the pipeline and leave the
    contents that follow from these. -/
theorem handleAll (h : p.Follows behaviour d) (hwidth : d.freeze.intsPerEdge ≤ width)
    (calls : List Call) {s : EdgeStorage width} {contents : Contents}
    (hreads : d.Reads s contents) :
    ∃ s', p.handleAll calls s = .ok (calls.map fun call => p.decide call.way) s' ∧
      d.Reads s' (contents.run behaviour p.decide calls) := by
  induction calls generalizing s contents with
  | nil => exact ⟨s, rfl, hreads⟩
  | cons call calls ih =>
    obtain ⟨s₁, hhandle, hreads₁⟩ := h.handle hwidth call hreads
    obtain ⟨s', hrest, hreads'⟩ := ih hreads₁
    refine ⟨s', ?_, hreads'⟩
    unfold Pipeline.handleAll at hrest ⊢
    rw [List.mapM_cons]
    exact Edit.bind_eq_ok_iff.2 ⟨_, s₁, hhandle, Edit.bind_eq_ok_iff.2 ⟨_, s', hrest, rfl⟩⟩

/-- Layouts decide alike if they share the values of the vehicles. -/
theorem decide_congr {p' : Pipeline} {d' : Layout.Draft} (h : p.Follows behaviour d)
    (h' : p'.Follows behaviour d')
    (hshared : ∀ name way, (behaviour name).decision way ≠ none →
      (name ∈ d.freeze.names ↔ name ∈ d'.freeze.names)) (way : Way) :
    p.decide way = p'.decide way := by
  rw [h.decide_eq, h'.decide_eq]
  apply Decision.combineAll_congr
  intro decision
  simp only [List.mem_filterMap]
  constructor
  · rintro ⟨name, hname, hdecision⟩
    have hiff := hshared name way (by simp [hdecision])
    exact ⟨name, hiff.1 hname, hdecision⟩
  · rintro ⟨name, hname, hdecision⟩
    have hiff := hshared name way (by simp [hdecision])
    exact ⟨name, hiff.2 hname, hdecision⟩

end Follows

end Pipeline

/-- What a pattern reads as is a matter of the declaration. -/
theorem Field.render_congr {f g : Field} (h : f.declaration = g.declaration) :
    f.render = g.render := by
  funext pattern
  simp only [render, decode, kind, h]

theorem Layout.Draft.Reads.format_eq {d : Layout.Draft} {s : EdgeStorage width}
    {contents : Contents} (h : d.Reads s contents) {f : Field} (hf : f ∈ d.freeze.fields)
    (edge : Nat) (reverse : Bool) :
    f.format s edge reverse = .ok (f.render (contents f.name edge reverse)) := by
  rw [Field.format, h f hf edge reverse]
  rfl

end EdgeAttributes
