import EdgeAttributes.Json.Value
import EdgeAttributes.Proofs.Json.Token
import Mathlib

namespace EdgeAttributes.Json

theorem isMark_of_mem_head?_elementTokens {vs : List Value} {t : Token}
    (h : t ∈ (elementTokens vs).head?) : t.IsMark := by
  cases vs <;> cases h <;> trivial

theorem isMark_of_mem_head?_fieldTokens {fs : List (List Piece × Value)} {t : Token}
    (h : t ∈ (fieldTokens fs).head?) : t.IsMark := by
  rcases fs with _ | ⟨⟨k, v⟩, fs⟩ <;> cases h <;> trivial

theorem isChain_field (k : List Piece) {ts : List Token} {fs : List (List Piece × Value)}
    (hts : ts.IsChain Token.Apart) (hfs : (fieldTokens fs).IsChain Token.Apart) :
    (.quoted k :: .colon :: (ts ++ fieldTokens fs)).IsChain Token.Apart := by
  have happend := Token.isChain_append hts hfs fun t => isMark_of_mem_head?_fieldTokens
  have hcolon : (Token.colon :: (ts ++ fieldTokens fs)).IsChain Token.Apart :=
    Token.isChain_cons_mark trivial happend
  exact hcolon.cons_cons fun _ _ => trivial

mutual

/-- In the tokens of a value a mark comes behind each number, unless the number is all of it. -/
theorem isChain_tokens (v : Value) : v.tokens.IsChain Token.Apart := by
  match v with
  | .word w => exact .singleton _
  | .number written => exact .singleton _
  | .quoted ps => exact .singleton _
  | .array [] => exact Token.isChain_cons_mark trivial (.singleton _)
  | .array (v :: vs) =>
    rw [Value.tokens]
    exact Token.isChain_cons_mark trivial <| Token.isChain_append (isChain_tokens v)
      (isChain_elementTokens vs) fun t => isMark_of_mem_head?_elementTokens
  | .object [] => exact Token.isChain_cons_mark trivial (.singleton _)
  | .object ((k, v) :: fs) =>
    rw [Value.tokens]
    exact Token.isChain_cons_mark trivial <|
      isChain_field k (isChain_tokens v) (isChain_fieldTokens fs)

theorem isChain_elementTokens (vs : List Value) : (elementTokens vs).IsChain Token.Apart := by
  match vs with
  | [] => exact .singleton _
  | v :: vs =>
    rw [elementTokens]
    exact Token.isChain_cons_mark trivial <| Token.isChain_append (isChain_tokens v)
      (isChain_elementTokens vs) fun t => isMark_of_mem_head?_elementTokens

theorem isChain_fieldTokens (fs : List (List Piece × Value)) :
    (fieldTokens fs).IsChain Token.Apart := by
  match fs with
  | [] => exact .singleton _
  | (k, v) :: fs =>
    rw [fieldTokens]
    exact Token.isChain_cons_mark trivial <|
      isChain_field k (isChain_tokens v) (isChain_fieldTokens fs)

end

/-- A value may come next. -/
def Awaiting.TakesValue (a : Awaiting) : Prop := a = .value ∨ a = .elementOrClose

namespace Reading

/-- Where a value may begin, every token but a closing bracket begins one or is refused. -/
theorem step?_eq_openValue? {a : Awaiting} (ha : a.TakesValue) (frames : List Frame) {t : Token}
    (ht : t ≠ .closeBracket) : step? ⟨a, frames⟩ t = openValue? frames t := by
  rcases ha with rfl | rfl
  · rfl
  · rcases frames with _ | ⟨_ | _, frames⟩ <;> cases t <;> first | rfl | exact absurd rfl ht

theorem foldlM_cons_of_openValue? {a : Awaiting} (ha : a.TakesValue) {frames : List Frame}
    {t : Token} {ts : List Token} {r : Reading} (ht : t ≠ .closeBracket)
    (h : openValue? frames t = some r) :
    (t :: ts).foldlM step? ⟨a, frames⟩ = ts.foldlM step? r := by
  rw [List.foldlM_cons, step?_eq_openValue? ha frames ht, h, Option.bind_eq_bind, Option.bind_some]

mutual

/-- The tokens of a value lead from where a value may begin to right behind it, and leave the open
    containers as they were. -/
theorem foldlM_tokens {a : Awaiting} (ha : a.TakesValue) (frames : List Frame) (v : Value) :
    v.tokens.foldlM step? ⟨a, frames⟩ = some ⟨.afterValue v, frames⟩ := by
  match v with
  | .word w => exact foldlM_cons_of_openValue? ha Token.noConfusion rfl
  | .number written => exact foldlM_cons_of_openValue? ha Token.noConfusion rfl
  | .quoted ps => exact foldlM_cons_of_openValue? ha Token.noConfusion rfl
  | .array [] =>
    rw [Value.tokens, foldlM_cons_of_openValue? ha Token.noConfusion rfl]
    rfl
  | .array (v :: vs) =>
    have hfirst := foldlM_tokens (.inr rfl) (.array [] :: frames) v
    have hrest := foldlM_elementTokens v [] frames vs
    rw [Value.tokens, List.cons_append, foldlM_cons_of_openValue? ha Token.noConfusion rfl,
      List.foldlM_append, hfirst]
    exact hrest
  | .object [] =>
    rw [Value.tokens, foldlM_cons_of_openValue? ha Token.noConfusion rfl]
    rfl
  | .object ((k, v) :: fs) =>
    have hfirst := foldlM_tokens (.inl rfl) (.object [] k :: frames) v
    have hrest := foldlM_fieldTokens k v [] frames fs
    have hkey : (.quoted k :: .colon :: (v.tokens ++ fieldTokens fs)).foldlM step?
        ⟨.keyOrClose, frames⟩ =
        (v.tokens ++ fieldTokens fs).foldlM step? ⟨.value, .object [] k :: frames⟩ := rfl
    rw [Value.tokens, List.cons_append, foldlM_cons_of_openValue? ha Token.noConfusion rfl,
      List.cons_append, List.cons_append, hkey, List.foldlM_append, hfirst]
    exact hrest

theorem foldlM_elementTokens (v : Value) (before : List Value) (frames : List Frame)
    (vs : List Value) :
    (elementTokens vs).foldlM step? ⟨.afterValue v, .array before :: frames⟩ =
      some ⟨.afterValue (.array ((v :: before).reverse ++ vs)), frames⟩ := by
  match vs with
  | [] =>
    rw [List.append_nil]
    rfl
  | u :: us =>
    have hnext := foldlM_tokens (.inl rfl) (.array (v :: before) :: frames) u
    have hrest := foldlM_elementTokens u (v :: before) frames us
    have hcomma : (.comma :: (u.tokens ++ elementTokens us)).foldlM step?
        ⟨.afterValue v, .array before :: frames⟩ =
        (u.tokens ++ elementTokens us).foldlM step? ⟨.value, .array (v :: before) :: frames⟩ := rfl
    rw [elementTokens, List.cons_append, hcomma, List.foldlM_append, hnext]
    simpa using hrest

theorem foldlM_fieldTokens (k : List Piece) (v : Value) (before : List (List Piece × Value))
    (frames : List Frame) (fs : List (List Piece × Value)) :
    (fieldTokens fs).foldlM step? ⟨.afterValue v, .object before k :: frames⟩ =
      some ⟨.afterValue (.object (((k, v) :: before).reverse ++ fs)), frames⟩ := by
  match fs with
  | [] =>
    rw [List.append_nil]
    rfl
  | (l, u) :: fs =>
    have hnext := foldlM_tokens (.inl rfl) (.object ((k, v) :: before) l :: frames) u
    have hrest := foldlM_fieldTokens l u ((k, v) :: before) frames fs
    have hcomma : (.comma :: .quoted l :: .colon :: (u.tokens ++ fieldTokens fs)).foldlM step?
        ⟨.afterValue v, .object before k :: frames⟩ =
        (u.tokens ++ fieldTokens fs).foldlM step?
          ⟨.value, .object ((k, v) :: before) l :: frames⟩ := rfl
    rw [fieldTokens, List.cons_append, List.cons_append, List.cons_append, hcomma,
      List.foldlM_append, hnext]
    simpa using hrest

end

end Reading

namespace Value

theorem ofTokens?_tokens (v : Value) : ofTokens? v.tokens = some v := by
  rw [ofTokens?, Reading.start, Reading.foldlM_tokens (.inl rfl)]
  rfl

/-- A value whose tokens are all read as themselves. -/
def Proper (v : Value) : Prop := ∀ t ∈ v.tokens, t.Proper

/-- A value is read back from its compact text. -/
theorem parse?_render {v : Value} (h : v.Proper) : parse? v.render = some v := by
  rw [parse?, render, String.toList_ofList, tokens?_flatMap_write h (isChain_tokens v)]
  exact ofTokens?_tokens v

theorem not_isControl_of_mem_render {v : Value} (h : v.Proper) {c : Char}
    (hc : c ∈ v.render.toList) : ¬isControl c := by
  rw [render, String.toList_ofList] at hc
  obtain ⟨t, ht, hwritten⟩ := List.mem_flatMap.1 hc
  exact Token.not_isControl_of_mem_write (h t ht) hwritten

theorem proper_text (s : String) : (text s).Proper := by
  intro t ht
  obtain rfl := List.mem_singleton.1 ht
  exact fun p hp => Piece.proper_of_mem_pieces hp

theorem proper_integer (n : Int) : (integer n).Proper := by
  intro t ht
  obtain rfl := List.mem_singleton.1 ht
  exact ⟨n, rfl⟩

theorem forall_proper_fieldTokens {fs : List (List Piece × Value)}
    (h : ∀ f ∈ fs, (∀ p ∈ f.1, p.Proper) ∧ f.2.Proper) : ∀ t ∈ fieldTokens fs, t.Proper := by
  induction fs with
  | nil => exact fun t ht => List.mem_singleton.1 ht ▸ trivial
  | cons f fs ih =>
    obtain ⟨⟨hkey, hvalue⟩, hfs⟩ := List.forall_mem_cons.1 h
    simp only [fieldTokens, List.cons_append, List.forall_mem_cons, List.forall_mem_append]
    exact ⟨trivial, hkey, trivial, hvalue, ih hfs⟩

theorem proper_ofFields {fields : List (String × Value)} (h : ∀ f ∈ fields, f.2.Proper) :
    (ofFields fields).Proper := by
  have hfields : ∀ f ∈ fields.map fun e => (pieces e.1, e.2),
      (∀ p ∈ f.1, p.Proper) ∧ f.2.Proper := by
    intro f hf
    obtain ⟨e, he, rfl⟩ := List.mem_map.1 hf
    exact ⟨fun p => Piece.proper_of_mem_pieces, h e he⟩
  have htokens := forall_proper_fieldTokens hfields
  -- The first field follows the opening brace, and every other field a comma.
  cases fields with
  | nil => exact List.forall_mem_cons.2 ⟨trivial, htokens⟩
  | cons f fields => exact List.forall_mem_cons.2 ⟨trivial, (List.forall_mem_cons.1 htokens).2⟩

end Value

end EdgeAttributes.Json
