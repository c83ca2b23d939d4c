namespace EdgeAttributes.Checked

-- Powers keep the meaning that they have without any further library. A literal exponent needs its
-- type for that.
attribute [local instance (high)] instPowNat

/-- A number that fits 64 bits with its sign. -/
def ofInt? (n : Int) : Option Int64 :=
  if -2 ^ (63 : Nat) ≤ n ∧ n < 2 ^ (63 : Nat) then some (Int64.ofInt n) else none

/-- The sum of two numbers. -/
def add? (a b : Int64) : Option Int64 := ofInt? (a.toInt + b.toInt)

/-- The difference of two numbers. -/
def sub? (a b : Int64) : Option Int64 := ofInt? (a.toInt - b.toInt)

/-- Move the bits of a number up. Bits that leave the word are lost. -/
def shiftLeft? (a : Int64) (bits : Nat) : Option Int64 :=
  if bits < 64 then some (a <<< Int64.ofNat bits) else none

/-- There is a result, and it is the number `n`. -/
def Gives (x : Option Int64) (n : Int) : Prop := ∃ m, x = some m ∧ m.toInt = n

namespace Gives

variable {x : Option Int64} {n : Int}

theorem isSome (h : Gives x n) : x.isSome := by
  obtain ⟨m, rfl, -⟩ := h
  rfl

theorem toInt_get (h : Gives x n) (hsome : x.isSome) : (x.get hsome).toInt = n := by
  obtain ⟨m, rfl, hm⟩ := h
  exact hm

theorem toInt_eq {m : Int64} (h : Gives x n) (hx : x = some m) : m.toInt = n := by
  obtain ⟨m', hx', hm⟩ := h
  rw [← hm, Option.some.inj (hx.symm.trans hx')]

end Gives

variable {a b : Int64}

private theorem ofInt?_gives {n : Int} (hmin : -2 ^ (63 : Nat) ≤ n) (hmax : n < 2 ^ (63 : Nat)) :
    Gives (ofInt? n) n :=
  ⟨_, if_pos ⟨hmin, hmax⟩, Int64.toInt_ofInt_of_le hmin hmax⟩

theorem add?_gives (hmin : -2 ^ (63 : Nat) ≤ a.toInt + b.toInt)
    (hmax : a.toInt + b.toInt < 2 ^ (63 : Nat)) : Gives (add? a b) (a.toInt + b.toInt) :=
  ofInt?_gives hmin hmax

theorem sub?_gives (hmin : -2 ^ (63 : Nat) ≤ a.toInt - b.toInt)
    (hmax : a.toInt - b.toInt < 2 ^ (63 : Nat)) : Gives (sub? a b) (a.toInt - b.toInt) :=
  ofInt?_gives hmin hmax

/-- One that is moved up within the lower half of the word is a power of two. -/
theorem shiftLeft?_one_gives {bits : Nat} (h : bits < 32) :
    Gives (shiftLeft? 1 bits) (2 ^ bits) := by
  have hall : ∀ bits < 32, ((1 : Int64) <<< Int64.ofNat bits).toInt = 2 ^ bits := by decide
  exact ⟨_, if_pos (by omega), hall bits h⟩

theorem toInt_toInt32 (hmin : -2 ^ (31 : Nat) ≤ a.toInt) (hmax : a.toInt < 2 ^ (31 : Nat)) :
    a.toInt32.toInt = a.toInt := by
  rw [Int64.toInt_toInt32]
  apply Int.bmod_eq_of_le <;> omega

theorem toNat_toUInt32 (hmin : 0 ≤ a.toInt) (hmax : a.toInt < 2 ^ (32 : Nat)) :
    a.toUInt64.toUInt32.toNat = a.toInt.toNat := by
  have hword : a.toUInt64.toNat = a.toInt.toNat := by
    have hsign : a.toInt = _ := BitVec.toInt_eq_toNat_cond a.toBitVec
    have hlt := a.toBitVec.isLt
    change a.toBitVec.toNat = _
    split at hsign <;> omega
  rw [UInt64.toNat_toUInt32]
  omega

end EdgeAttributes.Checked
