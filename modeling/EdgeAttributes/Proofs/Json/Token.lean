import EdgeAttributes.Json.Token
import EdgeAttributes.Proofs.Json.Quoted
import EdgeAttributes.Proofs.Text.Split
import Mathlib

namespace EdgeAttributes.Json

theorem toList_toString_ofNat (n : Nat) :
    (toString (Int.ofNat n)).toList = Nat.toDigits 10 n :=
  Nat.toList_repr

theorem toList_toString_negSucc (n : Nat) :
    (toString (Int.negSucc n)).toList = '-' :: Nat.toDigits 10 (n + 1) := by
  change ("-" ++ (n + 1).repr).toList = _
  rw [String.toList_append, Nat.toList_repr]
  rfl

theorem isDigit_of_mem_toDigits {n : Nat} {c : Char} (h : c ∈ Nat.toDigits 10 n) : c.isDigit :=
  Nat.isDigit_of_mem_toDigits (by decide) (by decide) h

/-- Only zero is written with a zero in front. -/
theorem head?_toDigits_ne {n : Nat} (h : 0 < n) : (Nat.toDigits 10 n).head? ≠ some '0' := by
  induction n using Nat.strongRecOn with
  | ind n ih =>
    rw [Nat.toDigits_eq_if (by decide)]
    split
    · simp only [List.head?_cons, ne_eq, Option.some.injEq, Nat.digitChar_eq_zero]
      omega
    · next hge =>
      rw [List.head?_append_of_ne_nil _ Nat.toDigits_ne_nil]
      exact ih (n / 10) (by omega) (by omega)

/-- Digits do not begin with a minus sign. -/
theorem toDigits_append_ne (n : Nat) (rest cs : List Char) :
    Nat.toDigits 10 n ++ rest ≠ '-' :: cs := by
  intro hcs
  have hmem : '-' ∈ Nat.toDigits 10 n := by
    refine List.mem_of_mem_head? ?_
    rw [← List.head?_append_of_ne_nil _ Nat.toDigits_ne_nil, hcs]
    rfl
  exact absurd (isDigit_of_mem_toDigits hmem) (by decide)

/-- A text that no number goes on with. -/
def EndsNumber (rest : List Char) : Prop :=
  ∀ c ∈ rest.head?, ¬c.isDigit ∧ c ≠ '.' ∧ c ≠ 'e' ∧ c ≠ 'E'

variable {rest : List Char}

theorem readDigits?_toDigits (n : Nat) (h : EndsNumber rest) :
    readDigits? (Nat.toDigits 10 n ++ rest) = some (Nat.toDigits 10 n, rest) := by
  have hdigits : ∀ c ∈ Nat.toDigits 10 n, c.isDigit := fun c hc => isDigit_of_mem_toDigits hc
  obtain ⟨htake, hdrop⟩ := Text.takeWhile_dropWhile_append hdigits fun c hc => (h c hc).1
  simp only [readDigits?, htake, hdrop]
  rw [if_neg (by simp [Nat.toDigits_ne_nil])]

theorem readWhole?_toDigits (n : Nat) (h : EndsNumber rest) :
    readWhole? (Nat.toDigits 10 n ++ rest) = some (Nat.toDigits 10 n, rest) := by
  rw [readWhole?, readDigits?_toDigits n h]
  split
  · next second more left hzero =>
    -- A zero in front of another digit is the only thing that is refused.
    have hdigits := congrArg Prod.fst (Option.some.inj hzero)
    rcases Nat.eq_zero_or_pos n with rfl | hpos
    · cases hdigits
    · exact absurd (congrArg List.head? hdigits) (head?_toDigits_ne hpos)
  · rfl

theorem readFraction?_of_endsNumber (h : EndsNumber rest) :
    readFraction? rest = some ([], rest) := by
  unfold readFraction?
  split
  · exact absurd rfl (h '.' rfl).2.1
  · rfl

theorem readExponent?_of_endsNumber (h : EndsNumber rest) :
    readExponent? rest = some ([], rest) := by
  cases rest with
  | nil => rfl
  | cons c cs =>
    obtain ⟨-, -, hsmall, hcapital⟩ := h c rfl
    simp only [readExponent?, hsmall, hcapital, or_self, if_false]

theorem readMagnitude?_toDigits (n : Nat) (h : EndsNumber rest) :
    readMagnitude? (Nat.toDigits 10 n ++ rest) = some (Nat.toDigits 10 n, rest) := by
  simp [readMagnitude?, readWhole?_toDigits n h, readFraction?_of_endsNumber h,
    readExponent?_of_endsNumber h]

/-- An integer is read up to its end. -/
theorem readNumber?_toString (n : Int) (h : EndsNumber rest) :
    readNumber? ((toString n).toList ++ rest) = some ((toString n).toList, rest) := by
  rcases n with n | n
  · rw [toList_toString_ofNat, readNumber?, readMagnitude?_toDigits n h]
    exact fun cs => toDigits_append_ne n rest cs
  · rw [toList_toString_negSucc, List.cons_append, readNumber?, readMagnitude?_toDigits _ h,
      Option.map_some]

/-- An integer is written in digits, with a minus sign or without. -/
theorem isDigit_of_mem_toString {n : Int} {c : Char} (h : c ∈ (toString n).toList) :
    c.isDigit ∨ c = '-' := by
  rcases n with n | n
  · exact .inl (isDigit_of_mem_toDigits (toList_toString_ofNat n ▸ h))
  · rw [toList_toString_negSucc] at h
    exact (List.mem_cons.1 h).symm.imp_left isDigit_of_mem_toDigits

theorem exists_toString_eq_cons (n : Int) :
    ∃ c cs, (toString n).toList = c :: cs ∧ (c.isDigit ∨ c = '-') := by
  have hne : (toString n).toList ≠ [] := by
    rcases n with n | n
    · rw [toList_toString_ofNat]
      exact Nat.toDigits_ne_nil
    · rw [toList_toString_negSucc]
      exact List.cons_ne_nil _ _
  obtain ⟨c, cs, hcs⟩ := List.exists_cons_of_ne_nil hne
  exact ⟨c, cs, hcs, isDigit_of_mem_toString (hcs ▸ List.mem_cons_self)⟩

/-- A token whose text is read as that token again: numbers are integers, and halves are those of
    surrogate pairs. -/
def Token.Proper : Token → Prop
  | number written => ∃ n : Int, written = (toString n).toList
  | quoted ps => ∀ p ∈ ps, p.Proper
  | _ => True

theorem readToken?_of_number {c : Char} (h : c.isDigit ∨ c = '-') (cs : List Char) :
    readToken? (c :: cs) = (readNumber? (c :: cs)).map fun (n, rest) => (.number n, rest) := by
  unfold readToken?
  split
  -- The first character of every other token is neither a digit nor a minus sign.
  case h_11 => rfl
  all_goals
    next hcons =>
      cases hcons
      exact absurd h (by decide)

/-- A token is read up to its end, if it is no number that what follows goes on with. -/
theorem readToken?_write {t : Token} (ht : t.Proper)
    (h : ∀ written, t = .number written → EndsNumber rest) :
    readToken? (t.write ++ rest) = some (t, rest) := by
  cases t with
  | word w => cases w <;> rfl
  | number written =>
    obtain ⟨n, rfl⟩ := ht
    have hread := readNumber?_toString n (h _ rfl)
    obtain ⟨c, cs, hcs, hc⟩ := exists_toString_eq_cons n
    rw [hcs, List.cons_append] at hread
    rw [Token.write, hcs, List.cons_append, readToken?_of_number hc, hread, Option.map_some]
  | quoted ps =>
    rw [Token.write, quote, List.append_assoc, List.cons_append, readToken?,
      List.singleton_append, readPieces?_quoted ht, Option.map_some]
  | _ => rfl

/-- A token begins with no blank, and there is something of it. -/
theorem Token.exists_write_eq_cons {t : Token} (ht : t.Proper) :
    ∃ c cs, t.write = c :: cs ∧ ¬isBlank c := by
  cases t with
  | word w => cases w <;> exact ⟨_, _, rfl, by decide⟩
  | number written =>
    obtain ⟨n, rfl⟩ := ht
    obtain ⟨c, cs, hcs, hc⟩ := exists_toString_eq_cons n
    refine ⟨c, cs, hcs, fun hblank => ?_⟩
    simp only [isBlank, Bool.or_eq_true, beq_iff_eq] at hblank
    rcases hblank with ((rfl | rfl) | rfl) | rfl <;> revert hc <;> decide
  | quoted ps => exact ⟨_, _, rfl, by decide⟩
  | _ => exact ⟨_, _, rfl, by decide⟩

theorem tokens?_nil : tokens? [] = some [] := by
  unfold tokens?
  rfl

/-- The tokens of a text are its first token and those of what follows it. -/
theorem tokens?_write_append {t : Token} (ht : t.Proper)
    (h : ∀ written, t = .number written → EndsNumber rest) :
    tokens? (t.write ++ rest) = (tokens? rest).map (t :: ·) := by
  have hread := readToken?_write ht h
  obtain ⟨c, cs, hwrite, hblank⟩ := Token.exists_write_eq_cons ht
  rw [hwrite, List.cons_append] at hread ⊢
  rw [tokens?]
  split
  · next hdrop => simp [hblank] at hdrop
  · next d ds hdrop =>
    rw [List.dropWhile_cons_of_neg hblank] at hdrop
    cases hdrop
    split
    · next hnone => rw [hread] at hnone; cases hnone
    · next u left hsome =>
      rw [hread] at hsome
      cases hsome
      rfl

namespace Token

/-- Brackets, braces, the colon and the comma. -/
def IsMark : Token → Prop
  | word _ | number _ | quoted _ => False
  | _ => True

/-- Two tokens that may stand side by side: behind a number comes a mark. -/
def Apart (t u : Token) : Prop := ∀ written, t = .number written → u.IsMark

theorem IsMark.endsNumber {t : Token} (h : t.IsMark) (rest : List Char) :
    EndsNumber (t.write ++ rest) := by
  intro c hc
  cases t
  case word | number | quoted => exact h.elim
  all_goals
    cases hc
    decide

theorem isChain_cons_mark {t : Token} {ts : List Token} (ht : t.IsMark) (hts : ts.IsChain Apart) :
    (t :: ts).IsChain Apart := by
  refine hts.cons ?_
  rintro u - written rfl
  exact ht.elim

/-- A row of tokens may be followed by a row that begins with a mark. -/
theorem isChain_append {ts us : List Token} (hts : ts.IsChain Apart) (hus : us.IsChain Apart)
    (hmark : ∀ u ∈ us.head?, u.IsMark) : (ts ++ us).IsChain Apart :=
  List.isChain_append.2 ⟨hts, hus, fun _ _ u hu _ _ => hmark u hu⟩

end Token

/-- Tokens are read back from their text, if a mark or nothing comes behind each number. -/
theorem tokens?_flatMap_write {ts : List Token} (hproper : ∀ t ∈ ts, t.Proper)
    (hapart : ts.IsChain Token.Apart) : tokens? (ts.flatMap Token.write) = some ts := by
  induction ts with
  | nil => exact tokens?_nil
  | cons t ts ih =>
    obtain ⟨ht, hts⟩ := List.forall_mem_cons.1 hproper
    obtain ⟨hnext, hchain⟩ := List.isChain_cons.1 hapart
    have hends : ∀ written, t = .number written → EndsNumber (ts.flatMap Token.write) := by
      intro written hnumber
      cases ts with
      | nil => nofun
      | cons u us =>
        rw [List.flatMap_cons]
        exact (hnext u rfl written hnumber).endsNumber _
    rw [List.flatMap_cons, tokens?_write_append ht hends, ih hts hchain, Option.map_some]

theorem Token.not_isControl_of_mem_write {t : Token} (ht : t.Proper) {c : Char}
    (h : c ∈ t.write) : ¬isControl c := by
  cases t with
  | word w =>
    have hword : w.write.all fun c => !isControl c := by cases w <;> decide
    simpa using List.all_eq_true.1 hword c h
  | number written =>
    obtain ⟨n, rfl⟩ := ht
    rw [isControl, decide_eq_true_eq]
    rcases isDigit_of_mem_toString h with hdigit | rfl
    · have hle : 0x30 ≤ c.toNat := (Char.isDigit_iff_toNat.1 hdigit).1
      omega
    · decide
  | quoted ps =>
    rw [Token.write, quote, List.cons_append, List.mem_cons, List.mem_append, List.mem_singleton]
      at h
    rcases h with rfl | h | rfl
    · decide
    · obtain ⟨p, -, hp⟩ := List.mem_flatMap.1 h
      exact Piece.not_isControl_of_mem_write hp
    · decide
  | _ => exact List.mem_singleton.1 h ▸ by decide

end EdgeAttributes.Json
