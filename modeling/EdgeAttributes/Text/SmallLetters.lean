import EdgeAttributes.Text.SmallLetters.Table

namespace EdgeAttributes.Text

private def inRanges (ranges : List (Nat × Nat)) (c : Char) : Bool :=
  ranges.any fun r => r.1 ≤ c.toNat && c.toNat ≤ r.2

/-- Letters and letter-like characters that have case. -/
def isCased (c : Char) : Bool := inRanges casedRanges c

/-- Characters that are looked through when the end of a word is sought. -/
def isCaseIgnorable (c : Char) : Bool := inRanges caseIgnorableRanges c

/-- The small form of one character, without regard to its neighbours. -/
def smallForm (c : Char) : List Char :=
  if c.toNat < 0x80 then
    [if 'A' ≤ c ∧ c ≤ 'Z' then Char.ofNat (c.toNat + 32) else c]
  else if c.toNat = 0x130 then ['i', Char.ofNat 0x307]
  else match caseRanges.find? fun r =>
      r.first ≤ c.toNat && c.toNat ≤ r.last && (c.toNat - r.first) % r.step == 0 with
    | some r => [Char.ofNat (c.toNat + r.shift).toNat]
    | none => [c]

/-- Whether a cased character comes first once case-ignorable ones are looked through. -/
def meetsCased (cs : List Char) : Bool :=
  match cs.dropWhile isCaseIgnorable with
  | [] => false
  | c :: _ => isCased c

/-- Small letters of `cs`, given what stands before it, nearest first. A capital sigma ends a word
    when a cased character comes before it and none comes after it. -/
def smallLettersAfter (before : List Char) : List Char → List Char
  | [] => []
  | c :: cs =>
    let small :=
      if c = 'Σ' then [if meetsCased before && !meetsCased cs then 'ς' else 'σ'] else smallForm c
    small ++ smallLettersAfter (c :: before) cs

/-- `s` in small letters. -/
def smallLetters (s : String) : String := String.ofList (smallLettersAfter [] s.toList)

end EdgeAttributes.Text
