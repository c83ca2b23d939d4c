import EdgeAttributes.Json.Quoted
import Mathlib

namespace EdgeAttributes

/-- Four hexadecimal digits stand for the number they were taken from. -/
theorem Text.digitsValue?_hexDigits {n : Nat} (h : n < 0x10000) :
    digitsValue? 16 [hexDigit (n / 0x1000 % 16), hexDigit (n / 0x100 % 16),
      hexDigit (n / 0x10 % 16), hexDigit (n % 16)] = some n := by
  have hdigit (m : Nat) : hexValue? (hexDigit (m % 16)) = some (m % 16) :=
    hexValue?_hexDigit (Nat.mod_lt m (by decide))
  have hmod (m : Nat) : m % 16 < 16 := Nat.mod_lt m (by decide)
  simp only [digitsValue?, List.foldlM_cons, List.foldlM_nil, hdigit, hmod, Option.bind_eq_bind,
    Option.bind_some, if_pos, Option.pure_def, Option.some.injEq]
  omega

namespace Json

/-- The number of a half is that of half a surrogate pair. -/
def Piece.Proper : Piece → Prop
  | char _ => True
  | half n => 0xD800 ≤ n ∧ n < 0xE000

theorem Piece.proper_of_mem_pieces {s : String} {p : Piece} (h : p ∈ pieces s) : p.Proper := by
  obtain ⟨c, -, rfl⟩ := List.mem_map.1 h
  trivial

theorem text?_pieces (s : String) : text? (pieces s) = some s := by
  have hjoined (cs : List Char) : joined? (cs.map .char) = some cs := by
    induction cs with
    | nil => rfl
    | cons c cs ih => rw [List.map_cons, joined?, ih, Option.map_some]
  rw [text?, pieces, hjoined, Option.map_some, String.ofList_toList]

theorem Piece.ofUnit_char {c : Char} (h : isControl c) : ofUnit c.toNat = char c := by
  have hlt : c.toNat < 0x20 := of_decide_eq_true h
  rw [ofUnit, if_neg (by omega), Char.ofNat_toNat]

theorem readPieces?_escapeUnit {n : Nat} (h : n < 0x10000) (rest : List Char) :
    readPieces? (escapeUnit n ++ rest) =
      (readPieces? rest).map fun (ps, left) => (.ofUnit n :: ps, left) := by
  simp only [escapeUnit, List.cons_append, List.nil_append, readPieces?,
    Text.digitsValue?_hexDigits h]
  cases readPieces? rest <;> rfl

theorem ofLetter?_letterOf? {c letter : Char} (h : letterOf? c = some letter) :
    ofLetter? letter = some c := by
  simp only [letterOf?] at h
  split_ifs at h with h1 h2 h3 h4 h5 h6 h7 <;> cases h <;> subst c <;> decide

theorem readPieces?_letter {c letter : Char} (h : ofLetter? letter = some c) (rest : List Char) :
    readPieces? ('\\' :: letter :: rest) =
      (readPieces? rest).map fun (ps, left) => (.char c :: ps, left) := by
  have hu : letter ≠ 'u' := by
    rintro rfl
    cases h
  rw [readPieces?, h]
  · cases readPieces? rest <;> rfl
  · rintro _ _ _ _ _ rfl
    exact absurd rfl hu

theorem readPieces?_plain {c : Char} (hletter : letterOf? c = none) (hcontrol : ¬isControl c)
    (rest : List Char) :
    readPieces? (c :: rest) = (readPieces? rest).map fun (ps, left) => (.char c :: ps, left) := by
  have hquote : c ≠ '"' := by
    rintro rfl
    cases hletter
  have hescape : c ≠ '\\' := by
    rintro rfl
    cases hletter
  rw [readPieces?, if_neg (by simp [hcontrol, hescape])]
  all_goals simp_all

/-- What stands for a piece in quotes is read as that piece, and nothing after it is touched. -/
theorem readPieces?_write {p : Piece} (h : p.Proper) (rest : List Char) :
    readPieces? (p.write ++ rest) = (readPieces? rest).map fun (ps, left) => (p :: ps, left) := by
  cases p with
  | half n =>
    obtain ⟨hlow, hhigh⟩ := h
    rw [Piece.write, readPieces?_escapeUnit (by omega), Piece.ofUnit, if_pos ⟨hlow, hhigh⟩]
  | char c =>
    rw [Piece.write]
    split
    · next letter hletter =>
      exact readPieces?_letter (ofLetter?_letterOf? hletter) rest
    · next hletter =>
      split
      · next hcontrol =>
        have hlt : c.toNat < 0x20 := of_decide_eq_true hcontrol
        rw [readPieces?_escapeUnit (by omega), Piece.ofUnit_char hcontrol]
      · next hcontrol => exact readPieces?_plain hletter hcontrol rest

/-- Quoted pieces are read back up to the closing quote. -/
theorem readPieces?_quoted {ps : List Piece} (h : ∀ p ∈ ps, p.Proper) (rest : List Char) :
    readPieces? (ps.flatMap Piece.write ++ '"' :: rest) = some (ps, rest) := by
  induction ps with
  | nil => rw [List.flatMap_nil, List.nil_append, readPieces?]
  | cons p ps ih =>
    obtain ⟨hp, hps⟩ := List.forall_mem_cons.1 h
    rw [List.flatMap_cons, List.append_assoc, readPieces?_write hp, ih hps, Option.map_some]

theorem not_isControl_of_mem_escapeUnit {n : Nat} {c : Char} (h : c ∈ escapeUnit n) :
    ¬isControl c := by
  have hdigit : ∀ m < 16, ¬isControl (Text.hexDigit m) := by decide
  have hmod (m : Nat) : ¬isControl (Text.hexDigit (m % 16)) := hdigit _ (Nat.mod_lt m (by decide))
  simp only [escapeUnit, List.mem_cons, List.not_mem_nil, or_false] at h
  rcases h with rfl | rfl | rfl | rfl | rfl | rfl
  · decide
  · decide
  all_goals exact hmod _

theorem not_isControl_of_letterOf? {c letter : Char} (h : letterOf? c = some letter) :
    ¬isControl letter := by
  simp only [letterOf?] at h
  split_ifs at h <;> cases h <;> decide

/-- No control character stands in quotes as it is. -/
theorem Piece.not_isControl_of_mem_write {p : Piece} {c : Char} (h : c ∈ p.write) :
    ¬isControl c := by
  cases p with
  | half n => exact not_isControl_of_mem_escapeUnit h
  | char d =>
    rw [Piece.write] at h
    split at h
    · next letter hletter =>
      rcases List.mem_pair.1 h with rfl | rfl
      · decide
      · exact not_isControl_of_letterOf? hletter
    · split at h
      · exact not_isControl_of_mem_escapeUnit h
      · next hcontrol => exact List.mem_singleton.1 h ▸ hcontrol

end Json

end EdgeAttributes
