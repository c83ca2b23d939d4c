import EdgeAttributes.Proofs.Layout.Cells

namespace EdgeAttributes

variable {width : Nat} {α β γ : Type}

/-- A change to the words of an edge that gives some bits a value and keeps the others. Neither
    which bits nor which values depends on the words. -/
structure Stamp (width : Nat) where
  print : Cell width → Cell width
  settled : ∀ (index : Nat) (hindex : index < width) (bit : Nat),
    (∀ words, (print words)[index].toBitVec.getLsbD bit = words[index].toBitVec.getLsbD bit) ∨
      ∃ value, ∀ words, (print words)[index].toBitVec.getLsbD bit = value

namespace Stamp

theorem print_print (a : Stamp width) (words : Cell width) :
    a.print (a.print words) = a.print words := by
  apply Vector.ext
  intro index hindex
  apply UInt32.toBitVec_inj.1
  apply BitVec.eq_of_getLsbD_eq
  intro bit _
  obtain hkept | ⟨value, hvalue⟩ := a.settled index hindex bit
  · rw [hkept]
  · rw [hvalue, hvalue]

/-- One stamp over another. Where both give a bit a value, that of the second counts. -/
def andThen (a b : Stamp width) : Stamp width where
  print words := b.print (a.print words)
  settled index hindex bit := by
    obtain hkept | ⟨value, hvalue⟩ := b.settled index hindex bit
    · simp only [hkept]
      exact a.settled index hindex bit
    · exact .inr ⟨value, fun words => hvalue _⟩

/-- A pattern put into a slot of a word that every edge has. -/
def ofSlot (slot : Slot) (pattern : UInt32) (hindex : slot.index < width) : Stamp width where
  print words := words.set slot.index (slot.deposit pattern words[slot.index]) hindex
  settled index hlt bit := by
    by_cases hword : slot.index = index
    · subst hword
      simp only [Vector.getElem_set_self, Slot.deposit, UInt32.toBitVec_or, UInt32.toBitVec_and,
        UInt32.toBitVec_not, BitVec.getLsbD_or, BitVec.getLsbD_and, BitVec.getLsbD_not]
      cases slot.mask.toBitVec.getLsbD bit with
      | true =>
        refine .inr ⟨(pattern <<< UInt32.ofNat slot.shift).toBitVec.getLsbD bit, fun words => ?_⟩
        simp only [Bool.not_true, Bool.and_false, Bool.and_true, Bool.false_or]
      | false =>
        refine .inl fun words => ?_
        simpa using BitVec.lt_of_getLsbD
    · exact .inl fun words => by rw [Vector.getElem_set_ne _ _ hword]

end Stamp

namespace EdgeStorage

/-- Storage is determined by the words of all edges and by how much of it is built and counted. -/
theorem ext_cell {s t : EdgeStorage width} (hsize : s.cells.size = t.cells.size)
    (hcount : s.edgeCount = t.edgeCount) (hcell : ∀ edge, s.cell edge = t.cell edge) : s = t := by
  obtain ⟨cells, edgeCount, size_le⟩ := s
  obtain ⟨cells', edgeCount', size_le'⟩ := t
  obtain rfl : edgeCount = edgeCount' := hcount
  obtain rfl : cells = cells' := by
    apply Array.ext hsize
    intro edge hedge hedge'
    have hwords := hcell edge
    simp only [cell_eq_getD] at hwords
    rwa [Array.getElem?_eq_getElem hedge, Array.getElem?_eq_getElem hedge'] at hwords
  rfl

/-- Storage with the words of one edge changed. All edges up to that one are allocated. -/
def modifyCell (s : EdgeStorage width) (edge : Nat) (f : Cell width → Cell width) :
    EdgeStorage width where
  cells := (grown s.cells edge).modify edge f
  edgeCount := max s.edgeCount (edge + 1)
  size_le := by
    rw [Array.size_modify, size_grown]
    have := s.size_le
    omega

theorem size_modifyCell (s : EdgeStorage width) (edge : Nat) (f : Cell width → Cell width) :
    (s.modifyCell edge f).cells.size = max s.cells.size (edge + 1) := by
  rw [modifyCell, Array.size_modify, size_grown]

theorem edgeCount_modifyCell (s : EdgeStorage width) (edge : Nat) (f : Cell width → Cell width) :
    (s.modifyCell edge f).edgeCount = max s.edgeCount (edge + 1) := rfl

theorem cell_modifyCell (s : EdgeStorage width) (edge : Nat) (f : Cell width → Cell width)
    (other : Nat) :
    (s.modifyCell edge f).cell other = if edge = other then f (s.cell edge) else s.cell other := by
  simp only [cell_eq_getD, modifyCell, getD_modify_grown]

theorem put_eq_modifyCell (s : EdgeStorage width) (edge index : Nat) (word : UInt32)
    (hindex : index < width) :
    s.put edge index word hindex = s.modifyCell edge fun words => words.set index word hindex := rfl

theorem modifyCell_congr {s : EdgeStorage width} {edge : Nat} {f g : Cell width → Cell width}
    (h : f (s.cell edge) = g (s.cell edge)) : s.modifyCell edge f = s.modifyCell edge g := by
  apply ext_cell
  · rw [size_modifyCell, size_modifyCell]
  · rfl
  · intro other
    rw [cell_modifyCell, cell_modifyCell, h]

theorem modifyCell_modifyCell (s : EdgeStorage width) (edge : Nat) (f g : Cell width → Cell width) :
    (s.modifyCell edge f).modifyCell edge g = s.modifyCell edge fun words => g (f words) := by
  apply ext_cell
  · simp only [size_modifyCell, max_assoc, max_self]
  · simp only [edgeCount_modifyCell, max_assoc, max_self]
  · intro other
    simp only [cell_modifyCell, if_true]
    split <;> rfl

/-- Growth does not tell in which order two edges were written. -/
theorem modifyCell_comm (s : EdgeStorage width) {edge edge' : Nat} (hne : edge ≠ edge')
    (f g : Cell width → Cell width) :
    (s.modifyCell edge f).modifyCell edge' g = (s.modifyCell edge' g).modifyCell edge f := by
  apply ext_cell
  · simp only [size_modifyCell]
    omega
  · simp only [edgeCount_modifyCell]
    omega
  · intro other
    simp only [cell_modifyCell, if_neg hne, if_neg hne.symm]
    by_cases hedge : edge = other
    · subst hedge
      simp only [if_true, if_neg hne.symm]
    · simp only [if_neg hedge]

/-- Storage with a stamp on the words of one edge, or as it was if there is no stamp. An edge that
    gets one is allocated, even if no bit of it changes. -/
def stamped (s : EdgeStorage width) (edge : Nat) : Option (Stamp width) → EdgeStorage width
  | none => s
  | some stamp => s.modifyCell edge stamp.print

theorem cell_stamped (s : EdgeStorage width) (edge : Nat) (stamp : Option (Stamp width))
    (other : Nat) : (s.stamped edge stamp).cell other =
      if edge = other then stamp.elim (s.cell edge) fun stamp => stamp.print (s.cell edge)
      else s.cell other := by
  cases stamp with
  | none =>
    by_cases hedge : edge = other
    · rw [if_pos hedge, hedge]
      rfl
    · rw [if_neg hedge]
      rfl
  | some stamp => exact s.cell_modifyCell edge stamp.print other

theorem stamped_stamped_self (s : EdgeStorage width) (edge : Nat) (stamp : Option (Stamp width)) :
    (s.stamped edge stamp).stamped edge stamp = s.stamped edge stamp := by
  cases stamp with
  | none => rfl
  | some stamp =>
    simp only [stamped, modifyCell_modifyCell]
    exact modifyCell_congr (stamp.print_print _)

theorem stamped_comm (s : EdgeStorage width) {edge edge' : Nat} (hne : edge ≠ edge')
    (stamp stamp' : Option (Stamp width)) :
    (s.stamped edge stamp).stamped edge' stamp' = (s.stamped edge' stamp').stamped edge stamp := by
  cases stamp with
  | none => rfl
  | some stamp =>
    cases stamp' with
    | none => rfl
    | some stamp' => exact s.modifyCell_comm hne stamp.print stamp'.print

theorem exists_stamped_stamped (stamp stamp' : Option (Stamp width)) :
    ∃ both, ∀ (s : EdgeStorage width) edge,
      (s.stamped edge stamp).stamped edge stamp' = s.stamped edge both := by
  cases stamp with
  | none => exact ⟨stamp', fun _ _ => rfl⟩
  | some stamp =>
    cases stamp' with
    | none => exact ⟨some stamp, fun _ _ => rfl⟩
    | some stamp' =>
      exact ⟨some (stamp.andThen stamp'), fun s edge => s.modifyCell_modifyCell edge _ _⟩

end EdgeStorage

/-- A result together with the storage it leaves. -/
def Edit.ending (result : Except Fault α) (s : EdgeStorage width) :
    EStateM.Result Fault (EdgeStorage width) α :=
  match result with
  | .ok value => .ok value s
  | .error fault => .error fault s

theorem Edit.observing_eq {x : Edit width α} {result : Except Fault α} {s s' : EdgeStorage width}
    (h : x s = Edit.ending result s') : observing x s = .ok result s' := by
  cases result with
  | ok value =>
    simp only [observing, tryCatch, tryCatchThe, MonadExceptOf.tryCatch, EStateM.tryCatch, bind,
      EStateM.bind, h, Edit.ending]
    rfl
  | error fault =>
    simp only [observing, tryCatch, tryCatchThe, MonadExceptOf.tryCatch, EStateM.tryCatch, bind,
      EStateM.bind, h, Edit.ending]
    rfl

/-- A computation given for every edge comes to one result, and leaves one stamp on its edge if it
    writes at all. Storage has no say in either. -/
def Edit.Stamps (x : Nat → Edit width α) : Prop :=
  ∃ (result : Except Fault α) (stamp : Option (Stamp width)),
    ∀ edge s, x edge s = Edit.ending result (s.stamped edge stamp)

namespace Edit.Stamps

variable {x : Nat → Edit width α} {y : Nat → α → Edit width β}

theorem pure (value : α) : Edit.Stamps fun _ => (Pure.pure value : Edit width α) :=
  ⟨.ok value, none, fun _ _ => rfl⟩

theorem throw (fault : Fault) : Edit.Stamps fun _ => (MonadExcept.throw fault : Edit width α) :=
  ⟨.error fault, none, fun _ _ => rfl⟩

theorem bind (hx : Edit.Stamps x) (hy : ∀ value, Edit.Stamps fun edge => y edge value) :
    Edit.Stamps fun edge => x edge >>= y edge := by
  obtain ⟨result, stamp, hfirst⟩ := hx
  cases result with
  | error fault =>
    refine ⟨.error fault, stamp, fun edge s => ?_⟩
    change EStateM.bind (x edge) (y edge) s = _
    rw [EStateM.bind, hfirst]
    rfl
  | ok value =>
    obtain ⟨result, stamp', hsecond⟩ := hy value
    obtain ⟨both, hboth⟩ := EdgeStorage.exists_stamped_stamped stamp stamp'
    refine ⟨result, both, fun edge s => ?_⟩
    change EStateM.bind (x edge) (y edge) s = _
    rw [EStateM.bind, hfirst, ← hboth]
    exact hsecond edge _

theorem forM {step : Nat → γ → Edit width Unit} {l : List γ}
    (h : ∀ c ∈ l, Edit.Stamps fun edge => step edge c) :
    Edit.Stamps fun edge => l.forM (step edge) := by
  induction l with
  | nil => exact pure ()
  | cons c l ih =>
    apply bind (h c List.mem_cons_self)
    exact fun _ => ih fun b hb => h b (List.mem_cons_of_mem _ hb)

end Edit.Stamps

/-- Storing a pattern stamps it on the edge, or is refused if the slot lies past the words that
    edges have. -/
theorem Field.setPattern_stamps (f : Field) (reverse : Bool) (pattern : UInt32) :
    Edit.Stamps fun edge => (f.setPattern edge reverse pattern : Edit width Unit) := by
  by_cases hindex : (f.slot reverse).index < width
  · refine ⟨.ok (), some (.ofSlot (f.slot reverse) pattern hindex), fun edge s => ?_⟩
    simp only [f.setPattern_eq s edge reverse pattern hindex, EdgeStorage.put_eq_modifyCell]
    exact congrArg _ (EdgeStorage.modifyCell_congr rfl)
  · refine ⟨.error (.wordPastWidth (f.slot reverse).index width), none, fun edge s => ?_⟩
    simp only [setPattern, EdgeStorage.word, dif_neg hindex]
    rfl

end EdgeAttributes
