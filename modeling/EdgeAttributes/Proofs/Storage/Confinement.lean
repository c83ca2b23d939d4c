import EdgeAttributes.Proofs.Storage.Stamps

namespace EdgeAttributes

variable {width : Nat} {α : Type}

/-- A result on storage is a result on the words of one edge, and the words of all other edges are
    those of the storage before. -/
inductive EdgeStorage.Extends (edge : Nat) (s : EdgeStorage width) :
    EStateM.Result Fault (Cell width) α → EStateM.Result Fault (EdgeStorage width) α → Prop
  | ok (value : α) {words : Cell width} {s' : EdgeStorage width} (cell_eq : s'.cell edge = words)
      (others : ∀ other, other ≠ edge → s'.cell other = s.cell other) :
      Extends edge s (.ok value words) (.ok value s')
  | error (fault : Fault) {words : Cell width} {s' : EdgeStorage width}
      (cell_eq : s'.cell edge = words)
      (others : ∀ other, other ≠ edge → s'.cell other = s.cell other) :
      Extends edge s (.error fault words) (.error fault s')

/-- What comes out on storage that agrees with some storage on all other edges comes out on that. -/
theorem EdgeStorage.Extends.after {edge : Nat} {s t : EdgeStorage width}
    {onCell : EStateM.Result Fault (Cell width) α}
    {result : EStateM.Result Fault (EdgeStorage width) α} (h : Extends edge t onCell result)
    (hothers : ∀ other, other ≠ edge → t.cell other = s.cell other) :
    Extends edge s onCell result := by
  cases h with
  | ok value cell_eq others =>
    exact .ok value cell_eq fun other hother => (others other hother).trans (hothers other hother)
  | error fault cell_eq others =>
    exact .error fault cell_eq fun other hother =>
      (others other hother).trans (hothers other hother)

/-- A computation given for every edge reads and writes only the words of its edge, and does the
    same for all edges: what comes out is a matter of the words that go in. -/
def Edit.Confined (x : Nat → Edit width α) : Prop :=
  ∃ onCell : EStateM Fault (Cell width) α,
    ∀ edge s, EdgeStorage.Extends edge s (onCell (s.cell edge)) (x edge s)

theorem Edit.Stamps.confined {x : Nat → Edit width α} (hx : Edit.Stamps x) : Edit.Confined x := by
  obtain ⟨result, stamp, hx⟩ := hx
  let printed (words : Cell width) : Cell width := stamp.elim words fun stamp => stamp.print words
  have hcell (edge : Nat) (s : EdgeStorage width) :
      (s.stamped edge stamp).cell edge = printed (s.cell edge) :=
    (s.cell_stamped edge stamp edge).trans (if_pos rfl)
  have hothers (edge : Nat) (s : EdgeStorage width) (other : Nat) (hother : other ≠ edge) :
      (s.stamped edge stamp).cell other = s.cell other :=
    (s.cell_stamped edge stamp other).trans (if_neg (Ne.symm hother))
  cases result with
  | ok value =>
    refine ⟨fun words => .ok value (printed words), fun edge s => ?_⟩
    rw [hx edge s]
    exact .ok value (hcell edge s) (hothers edge s)
  | error fault =>
    refine ⟨fun words => .error fault (printed words), fun edge s => ?_⟩
    rw [hx edge s]
    exact .error fault (hcell edge s) (hothers edge s)

namespace Edit.Confined

variable {β γ : Type}

theorem pure (value : α) : Edit.Confined fun _ => (Pure.pure value : Edit width α) :=
  (Edit.Stamps.pure value).confined

theorem throw (fault : Fault) : Edit.Confined fun _ => (MonadExcept.throw fault : Edit width α) :=
  (Edit.Stamps.throw fault).confined

theorem bind {x : Nat → Edit width α} {y : Nat → α → Edit width β} (hx : Edit.Confined x)
    (hy : ∀ value, Edit.Confined fun edge => y edge value) :
    Edit.Confined fun edge => x edge >>= y edge := by
  obtain ⟨onFirst, hfirst⟩ := hx
  choose onSecond hsecond using hy
  refine ⟨onFirst >>= onSecond, fun edge s => ?_⟩
  change EdgeStorage.Extends edge s (EStateM.bind onFirst onSecond (s.cell edge))
    (EStateM.bind (x edge) (y edge) s)
  have h := hfirst edge s
  rw [EStateM.bind, EStateM.bind]
  generalize onFirst (s.cell edge) = words, x edge s = result at h
  cases h with
  | ok value cell_eq others =>
    subst cell_eq
    exact (hsecond value edge _).after others
  | error fault cell_eq others => exact .error fault cell_eq others

theorem forM {step : Nat → γ → Edit width Unit} {l : List γ}
    (h : ∀ c ∈ l, Edit.Confined fun edge => step edge c) :
    Edit.Confined fun edge => l.forM (step edge) := by
  induction l with
  | nil => exact pure ()
  | cons c l ih =>
    apply bind (h c List.mem_cons_self)
    exact fun _ => ih fun b hb => h b (List.mem_cons_of_mem _ hb)

end Edit.Confined

/-- Edges with the same words come to the same, and keep the same words. -/
theorem Edit.Confined.congr {x : Nat → Edit width α} (hx : Edit.Confined x) {edge edge' : Nat}
    {s s' : EdgeStorage width} (hcell : s.cell edge = s'.cell edge') :
    ∃ t t', t.cell edge = t'.cell edge' ∧ (∀ other, other ≠ edge → t.cell other = s.cell other) ∧
      ((∃ value, x edge s = .ok value t ∧ x edge' s' = .ok value t') ∨
        ∃ fault, x edge s = .error fault t ∧ x edge' s' = .error fault t') := by
  obtain ⟨onCell, hextends⟩ := hx
  have h := hextends edge s
  have h' := hextends edge' s'
  rw [hcell] at h
  generalize onCell (s'.cell edge') = words, x edge s = result, x edge' s' = result' at h h'
  cases h with
  | ok value cell_eq others =>
    cases h' with
    | ok _ cell_eq' _ =>
      exact ⟨_, _, cell_eq.trans cell_eq'.symm, others, .inl ⟨value, rfl, rfl⟩⟩
  | error fault cell_eq others =>
    cases h' with
    | error _ cell_eq' _ =>
      exact ⟨_, _, cell_eq.trans cell_eq'.symm, others, .inr ⟨fault, rfl, rfl⟩⟩

theorem EdgeStorage.word_congr {s s' : EdgeStorage width} {edge edge' : Nat}
    (hcell : s.cell edge = s'.cell edge') (index : Nat) :
    s.word edge index = s'.word edge' index := by
  by_cases hindex : index < width
  · rw [s.word_eq edge hindex, s'.word_eq edge' hindex, hcell]
  · rw [word, word, dif_neg hindex, dif_neg hindex]

theorem Field.texts_congr (f : Field) {s s' : EdgeStorage width} {edge edge' : Nat}
    (hcell : s.cell edge = s'.cell edge') : f.texts s edge = f.texts s' edge' := by
  simp only [texts, format, pattern, EdgeStorage.word_congr hcell]

theorem Field.texts_eq_ok (f : Field) (hindex : ∀ reverse, (f.slot reverse).index < width)
    (s : EdgeStorage width) (edge : Nat) : ∃ texts, f.texts s edge = .ok texts := by
  simp only [texts, format, f.pattern_eq s edge _ (hindex _)]
  split
  · exact ⟨_, rfl⟩
  · exact ⟨_, rfl⟩

end EdgeAttributes
