import EdgeAttributes.Layout
import EdgeAttributes.Proofs.Calls

namespace EdgeAttributes.Layout.Draft

variable {d d' : Draft} {decl : Declaration}

theorem contains_iff {name : String} :
    d.contains name = true ↔ name ∈ d.declarations.map Declaration.name := by
  simp [contains]

theorem queue_of_mem (hname : decl.name ∈ d.declarations.map Declaration.name) :
    queue decl d = .error (.duplicateEncodedValue decl.name) d :=
  dif_pos (contains_iff.2 hname)

theorem queue_of_notMem (hname : decl.name ∉ d.declarations.map Declaration.name) :
    ∃ d', queue decl d = .ok () d' ∧ d'.declarations = d.declarations ++ [decl] :=
  ⟨_, dif_neg fun htaken => hname (contains_iff.1 htaken), rfl⟩

theorem push_of_notMem (hname : decl.name ∉ d.declarations.map Declaration.name) :
    ∃ d', d.push decl = .ok d' ∧ d'.declarations = d.declarations ++ [decl] := by
  obtain ⟨d', hqueue, hdeclarations⟩ := queue_of_notMem hname
  exact ⟨d', by rw [push, hqueue], hdeclarations⟩

theorem declarations_push (h : d.push decl = .ok d') :
    d'.declarations = d.declarations ++ [decl] := by
  by_cases hname : decl.name ∈ d.declarations.map Declaration.name
  · rw [push, queue_of_mem hname] at h
    cases h
  · obtain ⟨other, hpush, hdeclarations⟩ := push_of_notMem hname
    obtain rfl : other = d' := Except.ok.inj (hpush.symm.trans h)
    exact hdeclarations

/-- Those of some declarations that are queued, one after the other. -/
def accepted (d : Draft) : List Declaration → List Declaration
  | [] => []
  | decl :: decls =>
    match queue decl d with
    | .ok () d' => decl :: d'.accepted decls
    | .error _ d' => d'.accepted decls

/-- A draft has what was queued, in that order. -/
theorem declarations_stateAfterAll (d : Draft) (decls : List Declaration) :
    (stateAfterAll queue d decls).declarations = d.declarations ++ d.accepted decls := by
  induction decls generalizing d with
  | nil => exact (List.append_nil _).symm
  | cons decl decls ih =>
    rw [stateAfterAll_cons, ih, accepted]
    by_cases hname : decl.name ∈ d.declarations.map Declaration.name
    · have hqueue := queue_of_mem hname
      rw [stateAfter_of_error hqueue, hqueue]
    · obtain ⟨d', hqueue, hdeclarations⟩ := queue_of_notMem hname
      rw [stateAfter_of_ok hqueue, hqueue, hdeclarations, List.append_assoc, List.singleton_append]

/-- Nothing is queued that was not handed over. -/
theorem accepted_sublist (d : Draft) (decls : List Declaration) :
    (d.accepted decls).Sublist decls := by
  induction decls generalizing d with
  | nil => exact .slnil
  | cons decl decls ih =>
    rw [accepted]
    cases queue decl d with
    | ok _ d' => exact (ih d').cons_cons decl
    | error _ d' => exact (ih d').cons decl

end EdgeAttributes.Layout.Draft
