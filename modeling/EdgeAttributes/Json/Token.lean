import EdgeAttributes.Json.Quoted

namespace EdgeAttributes.Json

/-- The words of JSON. -/
inductive Word where
  | null
  | true
  | false
deriving DecidableEq

/-- A token of a JSON text. -/
inductive Token where
  | openBrace
  | closeBrace
  | openBracket
  | closeBracket
  | colon
  | comma
  | word (w : Word)
  | number (written : List Char)
  | quoted (ps : List Piece)
deriving DecidableEq

/-- The blanks of JSON. -/
def isBlank (c : Char) : Bool := c == ' ' || c == '\n' || c == '\r' || c == '\t'

/-- How a word is written. -/
def Word.write : Word → List Char
  | null => ['n', 'u', 'l', 'l']
  | true => ['t', 'r', 'u', 'e']
  | false => ['f', 'a', 'l', 's', 'e']

/-- How a token is written. -/
def Token.write : Token → List Char
  | openBrace => ['{']
  | closeBrace => ['}']
  | openBracket => ['[']
  | closeBracket => [']']
  | colon => [':']
  | comma => [',']
  | word w => w.write
  | number written => written
  | quoted ps => quote ps

/-- At least one digit, and what follows the digits. -/
def readDigits? (cs : List Char) : Option (List Char × List Char) :=
  let ds := cs.takeWhile Char.isDigit
  if ds.isEmpty then none else some (ds, cs.dropWhile Char.isDigit)

/-- A whole number without leading zeros. -/
def readWhole? (cs : List Char) : Option (List Char × List Char) :=
  match readDigits? cs with
  | some ('0' :: _ :: _, _) => none
  | r => r

/-- A point and digits, if a point comes. -/
def readFraction? : List Char → Option (List Char × List Char)
  | '.' :: cs => (readDigits? cs).map fun (ds, rest) => ('.' :: ds, rest)
  | cs => some ([], cs)

/-- An exponent, if one comes. -/
def readExponent? : List Char → Option (List Char × List Char)
  | c :: cs =>
    if c = 'e' ∨ c = 'E' then
      match cs with
      | s :: more =>
        if s = '+' ∨ s = '-' then (readDigits? more).map fun (ds, rest) => (c :: s :: ds, rest)
        else (readDigits? cs).map fun (ds, rest) => (c :: ds, rest)
      | [] => none
    else some ([], c :: cs)
  | [] => some ([], [])

/-- A number without its sign. -/
def readMagnitude? (cs : List Char) : Option (List Char × List Char) := do
  let (whole, cs) ← readWhole? cs
  let (fraction, cs) ← readFraction? cs
  let (exponent, cs) ← readExponent? cs
  some (whole ++ fraction ++ exponent, cs)

/-- A number as it is written. -/
def readNumber? : List Char → Option (List Char × List Char)
  | '-' :: cs => (readMagnitude? cs).map fun (n, rest) => ('-' :: n, rest)
  | cs => readMagnitude? cs

/-- The token that `cs` begins with, and what follows it. -/
def readToken? : List Char → Option (Token × List Char)
  | '{' :: cs => some (.openBrace, cs)
  | '}' :: cs => some (.closeBrace, cs)
  | '[' :: cs => some (.openBracket, cs)
  | ']' :: cs => some (.closeBracket, cs)
  | ':' :: cs => some (.colon, cs)
  | ',' :: cs => some (.comma, cs)
  | '"' :: cs => (readPieces? cs).map fun (ps, rest) => (.quoted ps, rest)
  | 'n' :: 'u' :: 'l' :: 'l' :: cs => some (.word .null, cs)
  | 't' :: 'r' :: 'u' :: 'e' :: cs => some (.word .true, cs)
  | 'f' :: 'a' :: 'l' :: 's' :: 'e' :: cs => some (.word .false, cs)
  | cs => (readNumber? cs).map fun (n, rest) => (.number n, rest)

private theorem length_readDigits? {cs ds rest : List Char} (h : readDigits? cs = some (ds, rest)) :
    cs.length = ds.length + rest.length ∧ 0 < ds.length := by
  simp only [readDigits?] at h
  split at h
  · cases h
  · next hne =>
    cases h
    refine ⟨?_, List.length_pos_iff.2 fun hnil => hne (by simp [hnil])⟩
    rw [← List.length_append, List.takeWhile_append_dropWhile]

private theorem length_readWhole? {cs n rest : List Char} (h : readWhole? cs = some (n, rest)) :
    rest.length < cs.length := by
  rw [readWhole?] at h
  split at h
  · cases h
  · have := length_readDigits? h
    omega

private theorem length_readFraction? {cs n rest : List Char}
    (h : readFraction? cs = some (n, rest)) : rest.length ≤ cs.length := by
  unfold readFraction? at h
  split at h
  · obtain ⟨⟨ds, left⟩, hds, heq⟩ := Option.map_eq_some_iff.1 h
    cases heq
    have := length_readDigits? hds
    simp only [List.length_cons]
    omega
  · cases h
    exact Nat.le_refl _

private theorem length_readExponent? {cs n rest : List Char}
    (h : readExponent? cs = some (n, rest)) : rest.length ≤ cs.length := by
  unfold readExponent? at h
  split at h
  · split at h
    · split at h
      · split at h
        · obtain ⟨⟨ds, left⟩, hds, heq⟩ := Option.map_eq_some_iff.1 h
          cases heq
          have := length_readDigits? hds
          simp only [List.length_cons]
          omega
        · obtain ⟨⟨ds, left⟩, hds, heq⟩ := Option.map_eq_some_iff.1 h
          cases heq
          have := length_readDigits? hds
          simp only [List.length_cons] at this ⊢
          omega
      · cases h
    · cases h
      exact Nat.le_refl _
  · cases h
    exact Nat.le_refl _

private theorem length_readMagnitude? {cs n rest : List Char}
    (h : readMagnitude? cs = some (n, rest)) : rest.length < cs.length := by
  simp only [readMagnitude?, Option.bind_eq_bind, Option.bind_eq_some_iff] at h
  obtain ⟨⟨whole, cs1⟩, hwhole, ⟨fraction, cs2⟩, hfraction, ⟨exponent, cs3⟩, hexponent, heq⟩ := h
  cases heq
  have h1 : cs1.length < cs.length := length_readWhole? hwhole
  have h2 : cs2.length ≤ cs1.length := length_readFraction? hfraction
  have h3 : cs3.length ≤ cs2.length := length_readExponent? hexponent
  exact Nat.lt_of_le_of_lt (Nat.le_trans h3 h2) h1

private theorem length_readNumber? {cs n rest : List Char}
    (h : readNumber? cs = some (n, rest)) : rest.length < cs.length := by
  unfold readNumber? at h
  split at h
  · obtain ⟨⟨m, left⟩, hm, heq⟩ := Option.map_eq_some_iff.1 h
    cases heq
    have := length_readMagnitude? hm
    simp only [List.length_cons]
    omega
  · exact length_readMagnitude? h

/-- Reading a token uses up at least one character. -/
theorem length_readToken? {cs rest : List Char} {t : Token} (h : readToken? cs = some (t, rest)) :
    rest.length < cs.length := by
  unfold readToken? at h
  split at h
  all_goals first
    | (cases h
       simp only [List.length_cons]
       omega)
    | (obtain ⟨⟨ps, left⟩, hps, heq⟩ := Option.map_eq_some_iff.1 h
       cases heq
       have := length_readPieces? hps
       simp only [List.length_cons]
       omega)
    | (obtain ⟨⟨ps, left⟩, hps, heq⟩ := Option.map_eq_some_iff.1 h
       cases heq
       exact length_readNumber? hps)

/-- All tokens of a text; none if some part of it is no token. -/
def tokens? (cs : List Char) : Option (List Token) :=
  match _h : cs.dropWhile isBlank with
  | [] => some []
  | c :: rest =>
    match _ht : readToken? (c :: rest) with
    | none => none
    | some (t, left) => (tokens? left).map (t :: ·)
termination_by cs.length
decreasing_by
  have h1 := length_readToken? _ht
  have h2 := (List.dropWhile_suffix isBlank (l := cs)).length_le
  rw [_h] at h2
  omega

end EdgeAttributes.Json
