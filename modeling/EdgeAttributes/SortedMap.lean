namespace EdgeAttributes

/-- Entries under distinct keys, in ascending order. -/
structure SortedMap (β : Type) where
  entries : List (String × β)
  sorted : entries.Pairwise fun a b => a.1 < b.1

namespace SortedMap

variable {β : Type}

/-- No entries. -/
def empty : SortedMap β := ⟨[], .nil⟩

instance : Inhabited (SortedMap β) := ⟨empty⟩

instance [DecidableEq β] : DecidableEq (SortedMap β) := fun a b =>
  if h : a.entries = b.entries then
    isTrue (by cases a; cases b; cases h; rfl)
  else isFalse fun hab => h (hab ▸ rfl)

/-- Put a key where it belongs in ascending entries, in place of the entry it had. -/
def insertEntry (key : String) (value : β) : List (String × β) → List (String × β)
  | [] => [(key, value)]
  | entry :: rest =>
    if key < entry.1 then (key, value) :: entry :: rest
    else if key = entry.1 then (key, value) :: rest
    else entry :: insertEntry key value rest

theorem fst_mem_insertEntry {key k : String} {value v : β} {l : List (String × β)}
    (h : (k, v) ∈ insertEntry key value l) : k = key ∨ (k, v) ∈ l := by
  induction l with
  | nil => simp_all [insertEntry]
  | cons entry rest ih =>
    rw [insertEntry] at h
    split at h
    · simp_all
      grind
    · split at h
      · simp_all
        grind
      · rcases List.mem_cons.1 h with h | h
        · exact Or.inr (h ▸ List.mem_cons_self)
        · rcases ih h with h | h
          · exact Or.inl h
          · exact Or.inr (List.mem_cons_of_mem _ h)

private theorem lt_of_not_lt {a b : String} (hlt : ¬a < b) (hne : a ≠ b) : b < a := by
  rcases String.le_total a b with h | h <;> grind

private theorem pairwise_insertEntry {key : String} {value : β} {l : List (String × β)}
    (h : l.Pairwise fun a b => a.1 < b.1) :
    (insertEntry key value l).Pairwise fun a b => a.1 < b.1 := by
  induction l with
  | nil => simp [insertEntry]
  | cons entry rest ih =>
    obtain ⟨hhead, htail⟩ := List.pairwise_cons.1 h
    rw [insertEntry]
    split
    · next hlt =>
      refine List.pairwise_cons.2 ⟨fun e he => ?_, h⟩
      rcases List.mem_cons.1 he with rfl | he
      · exact hlt
      · exact String.lt_trans hlt (hhead e he)
    · next hlt =>
      split
      · next heq => exact List.pairwise_cons.2 ⟨fun e he => heq ▸ hhead e he, htail⟩
      · next hne =>
        refine List.pairwise_cons.2 ⟨fun e he => ?_, ih htail⟩
        rcases fst_mem_insertEntry (k := e.1) (v := e.2) he with hk | he
        · exact hk ▸ lt_of_not_lt hlt hne
        · exact hhead e he

/-- Give a key a value, in place of the one it had. -/
def insert (m : SortedMap β) (key : String) (value : β) : SortedMap β :=
  ⟨insertEntry key value m.entries, pairwise_insertEntry m.sorted⟩

/-- The value of a key. -/
def get? (m : SortedMap β) (key : String) : Option β := m.entries.lookup key

/-- Whether a key has a value. -/
def contains (m : SortedMap β) (key : String) : Bool := (m.get? key).isSome

/-- Number of keys. -/
def size (m : SortedMap β) : Nat := m.entries.length

/-- Keys in ascending order. -/
def keys (m : SortedMap β) : List String := m.entries.map Prod.fst

/-- Insert pairs in order; of pairs with one key the last counts. -/
def ofList (l : List (String × β)) : SortedMap β :=
  l.foldl (fun m e => m.insert e.1 e.2) empty

private theorem lookup_cons_eq (k : String) (e : String × β) (l : List (String × β)) :
    (e :: l).lookup k = if k = e.1 then some e.2 else l.lookup k := by
  rw [List.lookup_cons]
  by_cases h : k = e.1
  · simp [h]
  · simp [h, beq_eq_false_iff_ne.2 h]

private theorem lookup_insertEntry (key k : String) (value : β) (l : List (String × β)) :
    (insertEntry key value l).lookup k = if k = key then some value else l.lookup k := by
  induction l with
  | nil => simp [insertEntry, lookup_cons_eq]
  | cons entry rest ih =>
    rw [insertEntry]
    split
    · rw [lookup_cons_eq]
    · split
      · next heq =>
        simp only [lookup_cons_eq, ← heq]
        split <;> rfl
      · next hne =>
        rw [lookup_cons_eq, lookup_cons_eq, ih]
        by_cases hk : k = entry.1
        · simp [hk, Ne.symm hne]
        · simp [hk]

/-- Inserting replaces the value of its key and of no other. -/
theorem get?_insert (m : SortedMap β) (key k : String) (value : β) :
    (m.insert key value).get? k = if k = key then some value else m.get? k :=
  lookup_insertEntry key k value m.entries

@[simp] theorem get?_empty (k : String) : (empty : SortedMap β).get? k = none := rfl

private theorem get?_foldl_insert (l : List (String × β)) (m : SortedMap β) (k : String) :
    (l.foldl (fun m e => m.insert e.1 e.2) m).get? k = (l.reverse.lookup k).or (m.get? k) := by
  induction l generalizing m with
  | nil => rfl
  | cons e l ih =>
    rw [List.foldl_cons, ih, get?_insert, List.reverse_cons, List.lookup_append, Option.or_assoc,
      lookup_cons_eq]
    by_cases hk : k = e.1
    · rw [if_pos hk, if_pos hk, Option.some_or]
    · rw [if_neg hk, if_neg hk, List.lookup_nil, Option.none_or]

/-- Of the pairs that a map is made of, the last with a key gives its value. -/
theorem get?_ofList (l : List (String × β)) (k : String) :
    (ofList l).get? k = l.reverse.lookup k := by
  rw [ofList, get?_foldl_insert, get?_empty, Option.or_none]

/-- A map has no entries but those it was made of. -/
theorem mem_of_get?_ofList {l : List (String × β)} {k : String} {value : β}
    (h : (ofList l).get? k = some value) : (k, value) ∈ l := by
  rw [get?_ofList] at h
  obtain ⟨before, behind, hl, -⟩ := List.lookup_eq_some_iff.1 h
  exact List.mem_reverse.1 (hl ▸ List.mem_append_right _ List.mem_cons_self)

private theorem lookup_of_mem {l : List (String × β)} (hnodup : (l.map Prod.fst).Nodup) {k : String}
    {value : β} (hmem : (k, value) ∈ l) : l.lookup k = some value := by
  induction l with
  | nil => cases hmem
  | cons e l ih =>
    obtain ⟨hfresh, hnodup⟩ := List.nodup_cons.1 hnodup
    rw [lookup_cons_eq]
    rcases List.mem_cons.1 hmem with rfl | hmem
    · exact if_pos rfl
    · have hne : k ≠ e.1 := fun h => hfresh (h ▸ List.mem_map_of_mem hmem)
      rw [if_neg hne, ih hnodup hmem]

/-- Pairs with distinct keys are the entries of the map that is made of them. -/
theorem get?_ofList_eq_some {l : List (String × β)} (hnodup : (l.map Prod.fst).Nodup) {k : String}
    {value : β} : (ofList l).get? k = some value ↔ (k, value) ∈ l := by
  refine ⟨mem_of_get?_ofList, fun hmem => ?_⟩
  have hreverse : (l.reverse.map Prod.fst).Nodup := by
    rw [List.map_reverse]
    exact List.pairwise_reverse.2 (hnodup.imp Ne.symm)
  rw [get?_ofList, lookup_of_mem hreverse (List.mem_reverse.2 hmem)]

private theorem insertEntry_append {key : String} {value : β} {l : List (String × β)}
    (h : ∀ e ∈ l, e.1 < key) : insertEntry key value l = l ++ [(key, value)] := by
  induction l with
  | nil => rfl
  | cons entry rest ih =>
    have hlt := h entry List.mem_cons_self
    rw [insertEntry, if_neg (String.lt_asymm hlt),
      if_neg fun heq : key = entry.1 => String.lt_irrefl key (heq ▸ hlt),
      ih fun e he => h e (List.mem_cons_of_mem _ he), List.cons_append]

/-- A map is rebuilt by inserting its entries in order. -/
theorem ofList_entries (m : SortedMap β) : ofList m.entries = m := by
  have hfold : ∀ (l : List (String × β)) (acc : SortedMap β),
      (acc.entries ++ l).Pairwise (fun a b => a.1 < b.1) →
      (l.foldl (fun m e => m.insert e.1 e.2) acc).entries = acc.entries ++ l := by
    intro l
    induction l with
    | nil => intro acc _; simp
    | cons e l ih =>
      intro acc hacc
      have hins : (acc.insert e.1 e.2).entries = acc.entries ++ [e] :=
        insertEntry_append fun d hd => (List.pairwise_append.1 hacc).2.2 d hd e List.mem_cons_self
      rw [List.foldl_cons, ih _ (by rw [hins]; simpa using hacc), hins]
      simp
  have h := hfold m.entries empty (by simpa [empty] using m.sorted)
  have hext : ∀ a b : SortedMap β, a.entries = b.entries → a = b := by
    rintro ⟨_, _⟩ ⟨_, _⟩ rfl
    rfl
  exact hext _ _ (by simpa [ofList, empty] using h)

end SortedMap

end EdgeAttributes
