import EdgeAttributes.Proofs.Pipeline.Ownership

namespace EdgeAttributes.Pipeline

variable {width : Nat} {p p' : Pipeline} {q : TagParser} {way : Way}

/-- Pipelines to which parsers were added one by one. -/
inductive Built : Pipeline → Prop
  | ofWidth (intsPerEdge : Nat) : Built (.ofWidth intsPerEdge)
  | add {p p' : Pipeline} {q : TagParser} (hp : Built p) (hadd : p.add q = .ok p') : Built p'

theorem Built.owned (hp : p.Built) : p.Owned := by
  induction hp with
  | ofWidth intsPerEdge => exact .ofWidth intsPerEdge
  | @add p p' q _ hadd ih =>
    obtain ⟨hfree, rfl⟩ := add_eq_ok_iff.1 hadd
    exact ih.extended hfree

/-- Storage that is too narrow is refused before anything else is looked at. -/
theorem handle_of_lt (hwidth : width < p.intsPerEdge) (edge : Nat) (way : Way)
    (flags : RelationFlags) : (p.handle edge way flags : Edit width Decision) =
      throw (.error (.storageTooNarrow p.intsPerEdge width)) := by
  simp only [handle, Layout.checkWidth, if_pos hwidth]

theorem handle_of_skip (hwidth : p.intsPerEdge ≤ width) (hskip : p.decide way = .skip) (edge : Nat)
    (flags : RelationFlags) : (p.handle edge way flags : Edit width Decision) = pure .skip := by
  simp only [handle, Layout.checkWidth, if_neg (Nat.not_lt.2 hwidth), hskip]
  rfl

/-- A way that is not skipped is handed to all parsers in order. -/
theorem handle_of_ne_skip (hwidth : p.intsPerEdge ≤ width) (hskip : p.decide way ≠ .skip)
    (edge : Nat) (flags : RelationFlags) : (p.handle edge way flags : Edit width Decision) = do
      p.parsers.forM fun q => q.run edge way flags
      return p.decide way := by
  have hskip : (p.decide way).isSkip = false := by simpa [Decision.isSkip] using hskip
  simp only [handle, Layout.checkWidth, if_neg (Nat.not_lt.2 hwidth), hskip]
  rfl

end EdgeAttributes.Pipeline
