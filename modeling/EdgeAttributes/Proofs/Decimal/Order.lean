import Mathlib

open Float.Model

namespace EdgeAttributes.Decimal

/-- Where a number stands among all others: by its sign and whether it is finite, then by its
    exponent, then by its mantissa. What is no number stands nowhere. -/
def rank? : UnpackedFloat → Option (ℤ ×ₗ ℤ ×ₗ ℤ)
  | .notANumber => none
  | .infinity .negative => some (toLex (-2, toLex (0, 0)))
  | .finite .negative m e _ => some (toLex (-1, toLex (-e, -m)))
  | .zero _ => some (toLex (0, toLex (0, 0)))
  | .finite .positive m e _ => some (toLex (1, toLex (e, m)))
  | .infinity .positive => some (toLex (2, toLex (0, 0)))

private theorem compare_congr {α β : Type} [LinearOrder α] [LinearOrder β] {a b : α} {c d : β}
    (hlt : a < b ↔ c < d) (hgt : b < a ↔ d < c) : compare a b = compare c d := by
  rcases lt_trichotomy a b with h | h | h
  · rw [compare_lt_iff_lt.2 h, compare_lt_iff_lt.2 (hlt.1 h)]
  · have hle : c ≤ d := not_lt.1 (mt hgt.2 h.not_gt)
    have hge : d ≤ c := not_lt.1 (mt hlt.2 h.not_lt)
    rw [compare_eq_iff_eq.2 h, compare_eq_iff_eq.2 (le_antisymm hle hge)]
  · rw [compare_gt_iff_gt.2 h, compare_gt_iff_gt.2 (hgt.1 h)]

private theorem compare_toLex {α : Type} [LinearOrder α] (a a' : ℤ) (b b' : α) :
    compare (toLex (a, b)) (toLex (a', b')) = (compare a a').then (compare b b') := by
  simp [Prod.Lex.compare_def, compareLex, compareOn]

/-- Numbers are compared by where they stand. -/
theorem compare_eq (x y : UnpackedFloat) :
    x.compare y = Option.map₂ compare (rank? x) (rank? y) := by
  have hcast (m n : ℕ) : compare m n = compare (m : ℤ) n :=
    compare_congr Nat.cast_lt.symm Nat.cast_lt.symm
  have hneg (m n : ℤ) : (compare m n).swap = compare (-m) (-n) := by
    rw [← Std.OrientedCmp.eq_swap]
    exact compare_congr neg_lt_neg_iff.symm neg_lt_neg_iff.symm
  cases x with
  | notANumber => rfl
  | infinity s => cases s <;> rcases y with (_ | _) | _ | _ | ⟨_ | _, n, k, hn⟩ <;> rfl
  | zero s => rcases y with (_ | _) | _ | _ | ⟨_ | _, n, k, hn⟩ <;> rfl
  | finite s m e hm =>
    -- Only two finite numbers of one sign are told apart by more than the first component.
    cases s <;> rcases y with (_ | _) | _ | _ | ⟨_ | _, n, k, hn⟩ <;> try rfl
    · simp [UnpackedFloat.compare, rank?, compare_toLex, hcast, hneg, Ordering.swap_then]
    · simp [UnpackedFloat.compare, rank?, compare_toLex, hcast]

variable {x y z : Float}

theorem lt_iff_rank : x < y ↔
    ∃ a b, rank? x.toModel.unpack = some a ∧ rank? y.toModel.unpack = some b ∧ a < b := by
  have hlt : x < y ↔ x.toModel.unpack.compare y.toModel.unpack = some .lt := by
    change decide (UnpackedFloat.lt x.toModel.unpack y.toModel.unpack = true) = true ↔ _
    rw [decide_eq_true_iff, UnpackedFloat.lt, beq_iff_eq]
  rw [hlt, compare_eq, Option.map₂_eq_some_iff]
  simp only [compare_lt_iff_lt, Option.mem_def]

theorem le_iff_rank : x ≤ y ↔
    ∃ a b, rank? x.toModel.unpack = some a ∧ rank? y.toModel.unpack = some b ∧ a ≤ b := by
  have hle : x ≤ y ↔ (x.toModel.unpack.compare y.toModel.unpack).any (·.isLE) = true := by
    change decide (UnpackedFloat.le x.toModel.unpack y.toModel.unpack = true) = true ↔ _
    rw [decide_eq_true_iff, UnpackedFloat.le]
  have hcompare (a b : ℤ ×ₗ ℤ ×ₗ ℤ) : (compare a b).isLE = true ↔ a ≤ b :=
    Ordering.ne_gt_iff_isLE.symm.trans compare_le_iff_le
  rw [hle, compare_eq, Option.any_eq_true]
  simp only [Option.map₂_eq_some_iff, Option.mem_def]
  constructor
  · rintro ⟨_, ⟨a, b, ha, hb, rfl⟩, hab⟩
    exact ⟨a, b, ha, hb, (hcompare a b).1 hab⟩
  · rintro ⟨a, b, ha, hb, hab⟩
    exact ⟨_, ⟨a, b, ha, hb, rfl⟩, (hcompare a b).2 hab⟩

protected theorem lt_irrefl (x : Float) : ¬ x < x := by
  rw [lt_iff_rank]
  rintro ⟨a, b, ha, hb, hab⟩
  exact hab.ne (Option.some.inj (ha.symm.trans hb))

protected theorem lt_trans (h : x < y) (h' : y < z) : x < z := by
  obtain ⟨a, b, ha, hb, hab⟩ := lt_iff_rank.1 h
  obtain ⟨b', c, hb', hc, hbc⟩ := lt_iff_rank.1 h'
  obtain rfl := Option.some.inj (hb.symm.trans hb')
  exact lt_iff_rank.2 ⟨a, c, ha, hc, hab.trans hbc⟩

protected theorem le_of_lt (h : x < y) : x ≤ y := by
  obtain ⟨a, b, ha, hb, hab⟩ := lt_iff_rank.1 h
  exact le_iff_rank.2 ⟨a, b, ha, hb, hab.le⟩

protected theorem lt_of_lt_of_le (h : x < y) (h' : y ≤ z) : x < z := by
  obtain ⟨a, b, ha, hb, hab⟩ := lt_iff_rank.1 h
  obtain ⟨b', c, hb', hc, hbc⟩ := le_iff_rank.1 h'
  obtain rfl := Option.some.inj (hb.symm.trans hb')
  exact lt_iff_rank.2 ⟨a, c, ha, hc, hab.trans_le hbc⟩

protected theorem lt_of_le_of_lt (h : x ≤ y) (h' : y < z) : x < z := by
  obtain ⟨a, b, ha, hb, hab⟩ := le_iff_rank.1 h
  obtain ⟨b', c, hb', hc, hbc⟩ := lt_iff_rank.1 h'
  obtain rfl := Option.some.inj (hb.symm.trans hb')
  exact lt_iff_rank.2 ⟨a, c, ha, hc, hab.trans_lt hbc⟩

end EdgeAttributes.Decimal
