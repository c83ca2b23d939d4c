import EdgeAttributes.Proofs.Layout.Cells

namespace EdgeAttributes

variable {width : Nat}

namespace EdgeStorage

/-- Storage differs at most in bits of some slots of one edge. Words that are not allocated count as
    zeros, so growth alone does not show. -/
structure AgreeOutside (edge : Nat) (slots : List Slot) (s s' : EdgeStorage width) : Prop where
  others : ∀ other, other ≠ edge → s'.cell other = s.cell other
  bits : ∀ (index : Nat) (hindex : index < width) (bit : Nat), ¬ Slot.Covered slots index bit →
    (s'.cell edge)[index].toBitVec.getLsbD bit = (s.cell edge)[index].toBitVec.getLsbD bit

namespace AgreeOutside

variable {edge : Nat} {slots slots' : List Slot} {s s' s'' : EdgeStorage width}

theorem refl (edge : Nat) (slots : List Slot) (s : EdgeStorage width) :
    AgreeOutside edge slots s s :=
  ⟨fun _ _ => rfl, fun _ _ _ _ => rfl⟩

theorem trans (h : AgreeOutside edge slots s s') (h' : AgreeOutside edge slots s' s'') :
    AgreeOutside edge slots s s'' where
  others other hother := (h'.others other hother).trans (h.others other hother)
  bits index hindex bit hbit := (h'.bits index hindex bit hbit).trans (h.bits index hindex bit hbit)

theorem mono (h : AgreeOutside edge slots s s') (hsub : slots ⊆ slots') :
    AgreeOutside edge slots' s s' where
  others := h.others
  bits index hindex bit hbit := by
    apply h.bits index hindex bit
    rintro ⟨slot, hslot, hcover⟩
    exact hbit ⟨slot, hsub hslot, hcover⟩

/-- A slot without a bit in common with those slots holds the same pattern on every edge. -/
theorem pattern_eq (h : AgreeOutside edge slots s s') {f : Field} {reverse : Bool}
    (hinside : (f.slot reverse).Inside) (hdisjoint : ∀ slot ∈ slots, slot.Disjoint (f.slot reverse))
    (hindex : (f.slot reverse).index < width) (other : Nat) :
    f.pattern s' other reverse = f.pattern s other reverse := by
  rw [f.pattern_eq s' other reverse hindex, f.pattern_eq s other reverse hindex]
  congr 1
  by_cases hother : other = edge
  · subst hother
    apply UInt32.toBitVec_inj.1
    apply BitVec.eq_of_getLsbD_eq
    intro i _
    rw [Slot.getLsbD_extract hinside, Slot.getLsbD_extract hinside]
    by_cases hi : i < (f.slot reverse).bits
    · rw [h.bits _ hindex]
      rintro ⟨slot, hslot, hword, hlow, hhigh⟩
      rcases hdisjoint slot hslot with hne | hbefore | hbehind
      · exact hne hword
      · omega
      · omega
    · simp only [decide_eq_false hi, Bool.false_and]
  · rw [h.others other hother]

end AgreeOutside

end EdgeStorage

section Keeps

variable {α β : Type} {x : Edit width α} {R R' : EdgeStorage width → EdgeStorage width → Prop}
  {s s' : EdgeStorage width}

/-- Two computations in a row are refused by the first, or by the second on what the first left. -/
theorem Edit.bind_eq_error_iff {f : α → Edit width β} {fault : Fault} :
    (x >>= f) s = .error fault s' ↔
      x s = .error fault s' ∨ ∃ a t, x s = .ok a t ∧ f a t = .error fault s' := by
  change EStateM.bind x f s = _ ↔ _
  rw [EStateM.bind]
  cases x s with
  | error fault t => simp
  | ok a t => simp

/-- However the computation ends, it has moved storage along a relation. -/
structure Edit.Keeps (x : Edit width α) (R : EdgeStorage width → EdgeStorage width → Prop) :
    Prop where
  of_eq_ok : ∀ {s a s'}, x s = .ok a s' → R s s'
  of_eq_error : ∀ {s fault s'}, x s = .error fault s' → R s s'

namespace Edit.Keeps

theorem imp (h : Edit.Keeps x R) (himp : ∀ s s', R s s' → R' s s') : Edit.Keeps x R' :=
  ⟨fun hx => himp _ _ (h.of_eq_ok hx), fun hx => himp _ _ (h.of_eq_error hx)⟩

/-- Steps that each keep to a preorder do so together, wherever one of them ends early. -/
theorem forM (hrefl : ∀ s, R s s) (htrans : ∀ s t u, R s t → R t u → R s u)
    {step : α → Edit width Unit} {l : List α} (h : ∀ a ∈ l, Edit.Keeps (step a) R) :
    Edit.Keeps (l.forM step) R := by
  induction l with
  | nil =>
    refine ⟨fun hx => ?_, fun hx => ?_⟩
    · cases hx
      exact hrefl _
    · cases hx
  | cons a l ih =>
    have hfirst := h a List.mem_cons_self
    have hrest := ih fun b hb => h b (List.mem_cons_of_mem _ hb)
    refine ⟨fun hx => ?_, fun hx => ?_⟩
    · obtain ⟨_, t, ha, hl⟩ := Edit.bind_eq_ok_iff.1 hx
      exact htrans _ _ _ (hfirst.of_eq_ok ha) (hrest.of_eq_ok hl)
    · obtain ha | ⟨_, t, ha, hl⟩ := Edit.bind_eq_error_iff.1 hx
      · exact hfirst.of_eq_error ha
      · exact htrans _ _ _ (hfirst.of_eq_ok ha) (hrest.of_eq_error hl)

end Edit.Keeps

end Keeps

/-- The computation ends or is refused, and in both cases storage moves along a relation. It never
    stops at a word that storage does not have. -/
def Edit.Moves (x : Edit width Unit) (R : EdgeStorage width → EdgeStorage width → Prop) : Prop :=
  ∀ s, ∃ s', R s s' ∧ (x s = .ok () s' ∨ ∃ e, x s = .error (.error e) s')

namespace Edit.Moves

variable {x y : Edit width Unit} {R R' : EdgeStorage width → EdgeStorage width → Prop}

theorem imp (h : Edit.Moves x R) (himp : ∀ s s', R s s' → R' s s') : Edit.Moves x R' := by
  intro s
  obtain ⟨s', hR, hend⟩ := h s
  exact ⟨s', himp s s' hR, hend⟩

theorem keeps (h : Edit.Moves x R) : Edit.Keeps x R := by
  constructor
  · intro s _ s' hx
    obtain ⟨t, hR, hdone | ⟨e, hrefused⟩⟩ := h s
    · cases hx.symm.trans hdone
      exact hR
    · cases hx.symm.trans hrefused
  · intro s fault s' hx
    obtain ⟨t, hR, hdone | ⟨e, hrefused⟩⟩ := h s
    · cases hx.symm.trans hdone
    · cases hx.symm.trans hrefused
      exact hR

theorem throw (hrefl : ∀ s, R s s) (e : Error) : Edit.Moves (throw (.error e)) R :=
  fun s => ⟨s, hrefl s, .inr ⟨e, rfl⟩⟩

theorem seq (htrans : ∀ s t u, R s t → R t u → R s u) (hx : Edit.Moves x R)
    (hy : Edit.Moves y R) : Edit.Moves (x >>= fun _ => y) R := by
  intro s
  obtain ⟨t, hst, hdone | ⟨e, hrefused⟩⟩ := hx s
  · obtain ⟨u, htu, hlast | ⟨e, hlast⟩⟩ := hy t
    · refine ⟨u, htrans s t u hst htu, .inl ?_⟩
      rw [Edit.bind_eq_ok_iff]
      exact ⟨(), t, hdone, hlast⟩
    · refine ⟨u, htrans s t u hst htu, .inr ⟨e, ?_⟩⟩
      rw [Edit.bind_eq_error_iff]
      exact .inr ⟨(), t, hdone, hlast⟩
  · refine ⟨t, hst, .inr ⟨e, ?_⟩⟩
    rw [Edit.bind_eq_error_iff]
    exact .inl hrefused

/-- Steps that each move storage along a preorder do so together, wherever one of them is
    refused. -/
theorem forM {α : Type} (hrefl : ∀ s, R s s) (htrans : ∀ s t u, R s t → R t u → R s u)
    {step : α → Edit width Unit} {l : List α} (h : ∀ a ∈ l, Edit.Moves (step a) R) :
    Edit.Moves (l.forM step) R := by
  induction l with
  | nil => exact fun s => ⟨s, hrefl s, .inl rfl⟩
  | cons a l ih =>
    exact seq htrans (h a List.mem_cons_self) (ih fun b hb => h b (List.mem_cons_of_mem _ hb))

end Edit.Moves

/-- Storing a pattern changes no bit outside of its slot, even if the pattern is too wide. -/
theorem Field.setPattern_moves (f : Field) (edge : Nat) (reverse : Bool) (pattern : UInt32)
    (hinside : (f.slot reverse).Inside) (hindex : (f.slot reverse).index < width) :
    Edit.Moves (f.setPattern edge reverse pattern : Edit width Unit)
      (EdgeStorage.AgreeOutside edge [f.slot reverse]) := by
  intro s
  refine ⟨_, ⟨?_, ?_⟩, .inl (f.setPattern_eq s edge reverse pattern hindex)⟩
  · intro other hother
    rw [EdgeStorage.cell_put, if_neg (Ne.symm hother)]
  · intro index hlt bit hbit
    have hout : ¬ ((f.slot reverse).index = index ∧ (f.slot reverse).shift ≤ bit ∧
        bit < (f.slot reverse).shift + (f.slot reverse).bits) := fun hcover =>
      hbit ⟨_, List.mem_singleton_self _, hcover⟩
    rw [EdgeStorage.cell_put, if_pos rfl, Vector.getElem_set]
    split
    · next heq =>
      subst heq
      rw [Slot.getLsbD_deposit hinside, if_neg fun hcover => hout ⟨rfl, hcover⟩]
    · rfl

end EdgeAttributes
