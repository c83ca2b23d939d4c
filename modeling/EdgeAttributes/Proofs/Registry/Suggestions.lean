import EdgeAttributes.Proofs.Decimal.Order
import EdgeAttributes.Proofs.Layout.Views
import EdgeAttributes.Proofs.Registry.Wiring

namespace EdgeAttributes

universe u

namespace Suggestion

section Search

variable {score : String → Float} {seen candidates : List String} {found : Option String × Float}
  {s : String}

/-- What a search holds after some candidates: nothing, as long as none of them reaches the
    threshold, and afterwards one that does, along with its own score, which none of them
    exceeds. -/
inductive Found (score : String → Float) (seen : List String) : Option String × Float → Prop
  | nothing (unreached : ∀ c ∈ seen, ¬ threshold ≤ score c) : Found score seen (none, 0)
  | candidate (s : String) (reached : threshold ≤ score s)
      (highest : ∀ c ∈ seen, ¬ score s < score c) : Found score seen (some s, score s)

theorem keepBetter_eq (c : String) : keepBetter score found c =
    if threshold ≤ score c ∧ found.2 < score c then (some c, score c) else found := by
  simp [keepBetter]

theorem pos_of_threshold_le {x : Float} (h : threshold ≤ x) : 0 < x :=
  Decimal.lt_of_lt_of_le (by decide) h

/-- One more candidate is found if it reaches the threshold and none before it scores more. -/
theorem Found.of_reached {c : String} (reached : threshold ≤ score c)
    (highest : ∀ d ∈ seen, ¬ score c < score d) : Found score (seen ++ [c]) (some c, score c) :=
  .candidate c reached
    (List.forall_mem_append.2 ⟨highest, List.forall_mem_singleton.2 (Decimal.lt_irrefl _)⟩)

theorem Found.keepBetter (h : Found score seen found) (c : String) :
    Found score (seen ++ [c]) (keepBetter score found c) := by
  rw [keepBetter_eq]
  cases h with
  | nothing unreached =>
    by_cases hc : threshold ≤ score c
    · rw [if_pos ⟨hc, pos_of_threshold_le hc⟩]
      exact .of_reached hc fun d hd hlt =>
        unreached d hd (Decimal.le_of_lt (Decimal.lt_of_le_of_lt hc hlt))
    · rw [if_neg fun h => hc h.1]
      exact .nothing (List.forall_mem_append.2 ⟨unreached, List.forall_mem_singleton.2 hc⟩)
  | candidate s reached highest =>
    by_cases hc : score s < score c
    · have hreached := Decimal.le_of_lt (Decimal.lt_of_le_of_lt reached hc)
      rw [if_pos ⟨hreached, hc⟩]
      exact .of_reached hreached fun d hd hlt => highest d hd (Decimal.lt_trans hc hlt)
    · rw [if_neg fun h => hc h.2]
      exact .candidate s reached
        (List.forall_mem_append.2 ⟨highest, List.forall_mem_singleton.2 hc⟩)

theorem found_foldl (score : String → Float) (candidates : List String) :
    Found score candidates (candidates.foldl (keepBetter score) (none, 0)) := by
  induction candidates using List.reverseRecOn with
  | nil => exact .nothing (by simp)
  | append_singleton seen c ih =>
    rw [List.foldl_append, List.foldl_cons, List.foldl_nil]
    exact ih.keepBetter c

/-- All that a search can come to. -/
theorem best_cases (score : String → Float) (candidates : List String) :
    (best score candidates = none ∧ ∀ c ∈ candidates, ¬ threshold ≤ score c) ∨
    ∃ s ∈ candidates, best score candidates = some s ∧ threshold ≤ score s ∧
      ∀ c ∈ candidates, ¬ score s < score c := by
  have hmem : ∀ s, best score candidates = some s → s ∈ candidates := fun s => mem_of_best
  have hfound := found_foldl score candidates
  simp only [best] at hmem ⊢
  generalize candidates.foldl (keepBetter score) (none, 0) = found at hmem hfound ⊢
  cases hfound with
  | nothing unreached => exact .inl ⟨rfl, unreached⟩
  | candidate s reached highest => exact .inr ⟨s, hmem s rfl, rfl, reached, highest⟩

end Search

section Naming

variable {score : String → String → Float} {input s : String} {candidates : List String}

theorem suggestBy_eq_some (h : suggestBy score input candidates = some s) :
    s ∈ candidates ∧ ¬ Text.sameIgnoringCase s input ∧ threshold ≤ score input s ∧
      ∀ c ∈ candidates, ¬ score input s < score input c := by
  rw [suggestBy] at h
  split at h
  · cases h
  · next hnew =>
    obtain ⟨hnone, -⟩ | ⟨s', hmem, hsome, hreached, hhighest⟩ := best_cases (score input) candidates
    · cases hnone.symm.trans h
    · obtain rfl : s' = s := Option.some.inj (hsome.symm.trans h)
      exact ⟨hmem, fun hsame => hnew (List.any_eq_true.2 ⟨s', hmem, hsame⟩), hreached, hhighest⟩

theorem suggestBy_eq_none_iff : suggestBy score input candidates = none ↔
    (∃ c ∈ candidates, Text.sameIgnoringCase c input) ∨
      ∀ c ∈ candidates, ¬ threshold ≤ score input c := by
  rw [suggestBy]
  split
  · next hany => exact iff_of_true rfl (.inl (List.any_eq_true.1 hany))
  · next hnew =>
    obtain ⟨hnone, hunreached⟩ | ⟨s, hmem, hsome, hreached, -⟩ :=
      best_cases (score input) candidates
    · exact iff_of_true hnone (.inr hunreached)
    · rw [hsome]
      refine iff_of_false (Option.some_ne_none s) ?_
      rintro (hsame | hunreached)
      · exact hnew (List.any_eq_true.2 hsame)
      · exact hunreached s hmem hreached

/-- What is suggested in place of a name that is not known, out of some names that are: a name that
    is known as it stands and that differs from the other one in more than the case of its
    letters. -/
structure Actionable [Measures] (names : List String) (Known : String → Prop) (name : String)
    (suggestion : Option String) : Prop where
  unknown : ¬ Known name
  suggestion_eq : suggestion = suggest name names
  known : ∀ s, suggestion = some s → Known s ∧ ¬ Text.sameIgnoringCase s name

theorem actionable [Measures] {Known : String → Prop} {name : String} {names : List String}
    (hknown : ∀ s ∈ names, Known s) (hname : ¬ Known name) :
    Actionable names Known name (suggest name names) where
  unknown := hname
  suggestion_eq := rfl
  known s hs := by
    obtain ⟨hmem, hnew, -⟩ := suggestBy_eq_some hs
    exact ⟨hknown s hmem, hnew⟩

end Naming

end Suggestion

theorem Layout.Draft.push_eq_error {d : Layout.Draft} {decl : Declaration} {e : Error}
    (h : d.push decl = .error e) : e = .duplicateEncodedValue decl.name := by
  by_cases hname : decl.name ∈ d.declarations.map Declaration.name
  · rw [push, queue_of_mem hname] at h
    cases h
    rfl
  · obtain ⟨d', hpush, -⟩ := push_of_notMem hname
    cases hpush.symm.trans h

theorem Pipeline.add_eq_error {p : Pipeline} {q : TagParser} {e : Error}
    (h : p.add q = .error e) : ∃ name, e = p.twoWriters q name := by
  rcases p.owned_or_free q with howned | hfree
  · obtain ⟨name, -, -, hrefused⟩ := enroll_of_owned howned
    rw [add, hrefused] at h
    cases h
    exact ⟨name, rfl⟩
  · cases (add_eq_ok_iff.2 ⟨hfree, rfl⟩).symm.trans h

section Keyless

variable {α β : Type} {x : Except Error α}

/-- A result that does not report a key as unknown. -/
def Keyless (x : Except Error α) : Prop :=
  ∀ key suggestion, x ≠ .error (.unknownImportKey key suggestion)

theorem Keyless.of_eq_ok {a : α} (h : x = .ok a) : Keyless x := by
  rintro key suggestion hx
  cases h.symm.trans hx

theorem Keyless.bind {f : α → Except Error β} (hx : Keyless x) (hf : ∀ a, Keyless (f a)) :
    Keyless (x >>= f) := by
  intro key suggestion h
  obtain h | ⟨a, -, h⟩ := bind_eq_error_iff.1 h
  · exact hx key suggestion h
  · exact hf a key suggestion h

theorem keyless_map_iff {f : α → β} : Keyless (x.map f) ↔ Keyless x := by
  refine ⟨fun h key suggestion hx => ?_, fun h key suggestion hx => ?_⟩
  · rw [hx] at h
    exact h key suggestion rfl
  · exact h key suggestion (map_eq_error hx)

theorem Properties.keyless_getFlag (p : Properties) (key : String) (default : Bool) :
    Keyless (p.getFlag key default) := by
  obtain ⟨-, b, hflag⟩ | ⟨v, -, -, hflag⟩ := p.getFlag_cases key default
  · exact .of_eq_ok hflag
  · rintro k suggestion h
    cases hflag.symm.trans h

/-- A look-up for a kind of values reports a name as missing or a kind as another one, but never a
    key as unknown. -/
theorem View.keyless_find [Measures] {ι : Type u} (α : ι → Type) [∀ set, DecidableEq (α set)]
    [∀ set, TagEnum (α set)] (v : View ι) (l : Layout) (name : String) :
    Keyless (v.find α l name) := by
  rw [find_eq]
  apply Keyless.bind
  · by_cases hname : name ∈ l.names
    · obtain ⟨f, hf⟩ := Layout.exists_field_eq_ok hname
      exact .of_eq_ok hf
    · rintro key suggestion h
      cases (Layout.field_of_notMem hname).symm.trans h
  · intro f
    by_cases hholds : v.Holds α f.kind
    · exact .of_eq_ok (ofField_of_holds hholds)
    · rintro key suggestion h
      cases (ofField_of_not_holds hholds).symm.trans h

variable [Measures] (l : Layout) (name : String)

theorem Layout.keyless_booleanField : Keyless (l.booleanField name) :=
  keyless_map_iff.1 (View.boolean.keyless_find (fun _ : Empty => Moped) l name)

theorem Layout.keyless_decimalField : Keyless (l.decimalField name) :=
  keyless_map_iff.1 (View.decimal.keyless_find (fun _ : Empty => Moped) l name)

theorem Layout.keyless_enumField (α : Type) [DecidableEq α] [TagEnum α] :
    Keyless (l.enumField α name) :=
  keyless_map_iff.1 ((View.enum ()).keyless_find (fun _ => α) l name)

theorem Vehicle.keyless_withField (make : Bool → Vehicle) (key : String) (p : Properties) :
    Keyless (withField make key l p) := by
  apply Keyless.bind (l.keyless_booleanField key)
  intro field
  exact Keyless.bind (p.keyless_getFlag _ _) fun blockFords => .of_eq_ok rfl

end Keyless

namespace Registry

variable {r : Registry} {keys : List String} {p : Properties} {key : String}
  {suggestion : Option String}

theorem contains_iff_mem_keys : r.contains key = true ↔ key ∈ r.keys := by
  rw [contains, SortedMap.contains, SortedMap.get?, List.lookup_isSome_iff, Registry.keys,
    SortedMap.keys, List.mem_map]
  exact exists_congr fun entry => and_congr_right fun _ => beq_iff_eq.trans eq_comm

section Advises

-- Whatever the scores of names come from, no more is suggested than what is there.
variable [Measures]

/-- A key is not registered, and what is suggested in its place is. -/
abbrev Advises (r : Registry) (key : String) (suggestion : Option String) : Prop :=
  Suggestion.Actionable r.keys (fun k => r.contains k = true) key suggestion

theorem advises_of_unknown {k : String} (hk : r.contains k = false)
    (h : .unknownImportKey key suggestion = r.unknown k) : r.Advises key suggestion := by
  rw [unknown] at h
  cases h
  exact Suggestion.actionable (fun _ => contains_iff_mem_keys.2) (ne_true_of_eq_false hk)

theorem advises_of_resolve (h : r.resolve keys = .error (.unknownImportKey key suggestion)) :
    r.Advises key suggestion := by
  obtain ⟨k, -, ⟨he, hk⟩ | ⟨⟨trail, he⟩, -⟩⟩ := visit_error (by simp) h
  · exact advises_of_unknown hk he
  · cases he

theorem recipe_eq_error {e : Error} (h : r.recipe key = .error e) :
    e = r.unknown key ∧ r.contains key = false := by
  rw [Registry.recipe] at h
  split at h
  · cases h
  · next hnone =>
    cases h
    exact ⟨rfl, by rw [contains_eq_isSome, hnone]; rfl⟩

/-- A step of an assembly looks up a recipe, and adds what one of its factories makes. -/
private theorem step_cases {α σ : Type} {make : Recipe → Except Error α} {add : α → Except Error σ}
    (hadd : ∀ a, add a ≠ .error (.unknownImportKey key suggestion)) {k : String}
    (h : (do add (← make (← r.recipe k))) = .error (.unknownImportKey key suggestion)) :
    r.Advises key suggestion ∨ ∃ recipe, r.recipe? k = some recipe ∧
      make recipe = .error (.unknownImportKey key suggestion) := by
  obtain hrecipe | ⟨recipe, hrecipe, h⟩ := bind_eq_error_iff.1 h
  · obtain ⟨he, hk⟩ := recipe_eq_error hrecipe
    exact .inl (advises_of_unknown hk he)
  · obtain hmake | ⟨a, -, h⟩ := bind_eq_error_iff.1 h
    · exact .inr ⟨recipe, recipe_eq_ok hrecipe, hmake⟩
    · exact absurd h (hadd a)

/-- A recipe that a request leads to fails with an error of its own, as its value is declared or as
    its parser is made for the layout of all values. -/
def Raises (r : Registry) (keys : List String) (p : Properties) (e : Error) : Prop :=
  ∃ k recipe, r.Reachable keys k ∧ r.recipe? k = some recipe ∧
    (recipe.declare p = .error e ∨ ∃ resolved d, r.resolve keys = .ok resolved ∧
      r.draft p resolved = .ok d ∧ recipe.makeParser d.freeze p = .error e)

/-- Only the look-up of a recipe reports a key as unknown, unless a recipe does so by itself. -/
theorem advises_of_assemble
    (h : r.assemble keys p = .error (.unknownImportKey key suggestion)) :
    r.Advises key suggestion ∨ r.Raises keys p (.unknownImportKey key suggestion) := by
  obtain hresolve | ⟨resolved, hresolve, h⟩ := bind_eq_error_iff.1 h
  · exact .inl (advises_of_resolve hresolve)
  obtain ⟨-, hreachable⟩ := resolve_ok hresolve
  obtain hfails | ⟨d, hdraft, h⟩ := bind_eq_error_iff.1 h
  · obtain ⟨k, hk, d, hstep⟩ := exists_step_eq_error hfails
    refine (step_cases (fun decl hpush => ?_) hstep).imp_right ?_
    · cases Layout.Draft.push_eq_error hpush
    · rintro ⟨recipe, hrecipe, hdeclare⟩
      exact ⟨k, recipe, (hreachable k).1 hk, hrecipe, .inl hdeclare⟩
  obtain hpipeline | ⟨q, -, h⟩ := bind_eq_error_iff.1 h
  · obtain ⟨k, hk, q, hstep⟩ := exists_step_eq_error hpipeline
    refine (step_cases (fun parser hadd => ?_) hstep).imp_right ?_
    · obtain ⟨name, he⟩ := Pipeline.add_eq_error hadd
      cases he
    · rintro ⟨recipe, hrecipe, hmake⟩
      exact ⟨k, recipe, (hreachable k).1 hk, hrecipe,
        .inr ⟨resolved, d, hresolve, hdraft, hmake⟩⟩
  · cases h

/-- Nothing that a built-in recipe does is reported as an unknown key. -/
theorem builtin_keyless {k : String} {recipe : Recipe} (h : builtin.recipe? k = some recipe)
    (p : Properties) : Keyless (recipe.declare p) ∧ ∀ l, Keyless (recipe.makeParser l p) := by
  have hmem := SortedMap.mem_of_get?_ofList h
  simp only [List.mem_cons, List.not_mem_nil, or_false, Prod.mk.injEq] at hmem
  obtain ⟨-, rfl⟩ | ⟨-, rfl⟩ | ⟨-, rfl⟩ | ⟨-, rfl⟩ | ⟨-, rfl⟩ | ⟨-, rfl⟩ | ⟨-, rfl⟩ := hmem
  · exact ⟨.of_eq_ok rfl, fun l => keyless_map_iff.2 (l.keyless_enumField _ Moped)⟩
  · exact ⟨.of_eq_ok rfl, fun l => keyless_map_iff.2 (l.keyless_enumField _ RoadClass)⟩
  · exact ⟨.of_eq_ok rfl, fun l => keyless_map_iff.2 (l.keyless_enumField _ RoadAccess)⟩
  · exact ⟨.of_eq_ok rfl, fun l => keyless_map_iff.2 (l.keyless_booleanField _)⟩
  · exact ⟨.of_eq_ok rfl, fun l => keyless_map_iff.2 (l.keyless_decimalField _)⟩
  · exact ⟨.of_eq_ok rfl, fun l => keyless_map_iff.2 (Vehicle.keyless_withField l _ _ p)⟩
  · exact ⟨.of_eq_ok rfl, fun l => keyless_map_iff.2 (Vehicle.keyless_withField l _ _ p)⟩

theorem builtin_advises_of_assemble
    (h : builtin.assemble keys p = .error (.unknownImportKey key suggestion)) :
    builtin.Advises key suggestion := by
  refine (advises_of_assemble h).resolve_right ?_
  rintro ⟨k, recipe, -, hrecipe, hraises⟩
  obtain ⟨hdeclare, hmake⟩ := builtin_keyless hrecipe p
  obtain hraised | ⟨resolved, d, -, -, hraised⟩ := hraises
  · exact hdeclare key suggestion hraised
  · exact hmake _ key suggestion hraised

end Advises

end Registry

namespace Layout

variable [Measures] {l : Layout} {name missing : String} {suggestion : Option String}

/-- A name is not one of a field, and what is suggested in its place is. -/
abbrev Advises (l : Layout) (name : String) (suggestion : Option String) : Prop :=
  Suggestion.Actionable l.names (fun n => ∃ f, l.field n = .ok f) name suggestion

theorem advises_of_field (h : l.field name = .error (.encodedValueNotFound missing suggestion)) :
    missing = name ∧ l.Advises name suggestion := by
  by_cases hname : name ∈ l.names
  · obtain ⟨f, hf⟩ := exists_field_eq_ok hname
    cases hf.symm.trans h
  · cases (field_of_notMem hname).symm.trans h
    exact ⟨rfl, Suggestion.actionable (fun _ => mem_names_iff.1) (mt mem_names_iff.2 hname)⟩

/-- A look-up for a kind of values does not report a field of another kind as missing. -/
theorem advises_of_find {ι : Type u} {α : ι → Type} [∀ set, DecidableEq (α set)]
    [∀ set, TagEnum (α set)] {v : View ι}
    (h : v.find α l name = .error (.encodedValueNotFound missing suggestion)) :
    missing = name ∧ l.Advises name suggestion := by
  rw [View.find_eq] at h
  obtain hfield | ⟨f, -, hview⟩ := bind_eq_error_iff.1 h
  · exact advises_of_field hfield
  · by_cases hholds : v.Holds α f.kind
    · cases (View.ofField_of_holds hholds).symm.trans hview
    · cases (View.ofField_of_not_holds hholds).symm.trans hview

end Layout

/-- Suggestions can be followed, whatever measures of similarity they are made with. A suggestion is
    one of the candidates as it is spelled there, differs from the input in more than the case of
    its letters, and is one of those with the highest score; and there is none exactly if some
    candidate differs in nothing else or none reaches the threshold, as where there are no
    candidates at all. So a key that is reported as unknown, when keys are resolved or assembled, is
    not registered and what is suggested for it is. Only a recipe that raises this very report by
    itself is not held to it, and no built-in one does. A name that is reported as missing by a
    layout, whatever it was looked up as, is not the name of a field and what is suggested for it
    is. -/
theorem suggestions_actionable [Measures] {ι : Type u} (α : ι → Type) [∀ set, DecidableEq (α set)]
    [∀ set, TagEnum (α set)] :
    (∀ (score : String → String → Float) (input : String) (candidates : List String),
      (∀ s, Suggestion.suggestBy score input candidates = some s →
        s ∈ candidates ∧ ¬ Text.sameIgnoringCase s input ∧
        Suggestion.threshold ≤ score input s ∧ ∀ c ∈ candidates, ¬ score input s < score input c) ∧
      (Suggestion.suggestBy score input candidates = none ↔
        (∃ c ∈ candidates, Text.sameIgnoringCase c input) ∨
          ∀ c ∈ candidates, ¬ Suggestion.threshold ≤ score input c)) ∧
    (∀ (r : Registry) (keys : List String) (key : String) (suggestion : Option String),
      (r.resolve keys = .error (.unknownImportKey key suggestion) → r.Advises key suggestion) ∧
      ∀ p, r.assemble keys p = .error (.unknownImportKey key suggestion) →
        r.Advises key suggestion ∨ r.Raises keys p (.unknownImportKey key suggestion)) ∧
    (∀ keys p key suggestion,
      Registry.builtin.assemble keys p = .error (.unknownImportKey key suggestion) →
        Registry.builtin.Advises key suggestion) ∧
    ∀ (l : Layout) (name missing : String) (suggestion : Option String),
      (l.field name = .error (.encodedValueNotFound missing suggestion) ∨
        ∃ v : View ι, v.find α l name = .error (.encodedValueNotFound missing suggestion)) →
      missing = name ∧ l.Advises name suggestion := by
  refine ⟨fun score input candidates => ⟨fun s => Suggestion.suggestBy_eq_some,
      Suggestion.suggestBy_eq_none_iff⟩,
    fun r keys key suggestion => ⟨Registry.advises_of_resolve, fun p =>
      Registry.advises_of_assemble⟩,
    fun keys p key suggestion => Registry.builtin_advises_of_assemble,
    fun l name missing suggestion h => ?_⟩
  obtain hfield | ⟨v, hfind⟩ := h
  · exact Layout.advises_of_field hfield
  · exact Layout.advises_of_find hfind

private def misled : Recipe where
  declare _ := .error (.unknownImportKey "surface" (some "smoothness"))
  makeParser l _ := TagParser.roundaboutOf l
  required := []

private def misleading : Registry where
  recipes := .ofList [("surface", misled)]

/-- The report of a recipe is passed on as it is. It calls a key unknown that is registered, and
    suggests one that is not. -/
theorem assemble_passes_report_on :
    misleading.assemble ["surface"] .empty =
      .error (.unknownImportKey "surface" (some "smoothness")) ∧
    misleading.contains "surface" = true ∧ misleading.contains "smoothness" = false := by
  have hrecipe : misleading.recipe? "surface" = some misled := rfl
  have hresolve : misleading.resolve ["surface"] = .ok ["surface"] := by
    simp [Registry.resolve, Registry.visit_nil, Registry.visit_of_recipe, hrecipe, misled,
      Except.bind]
  refine ⟨?_, rfl, rfl⟩
  rw [Registry.assemble, hresolve]
  rfl

private def mopeds : Registry :=
  ⟨.ofList [("moped", .plain (Declaration.enum Moped false) TagParser.mopedOf)]⟩

private theorem threshold_le_score_mopd :
    Suggestion.threshold ≤ Suggestion.score "mopd" "moped" := by
  open Similarity in
  have hjaro : jaro "mopd".toList "moped".toList = 0.9333333333333332 := by
    simp only [jaro]
    -- The matched positions are in order already.
    rw [List.mergeSort_of_pairwise (by decide)]
    decide +kernel
  have hscore : Suggestion.score "mopd" "moped" =
      jaroWinkler "mopd".toList "moped".toList * 0.7 +
        editSimilarity "mopd".toList "moped".toList * 0.3 +
        Suggestion.beginningBonus "mopd".toList "moped".toList := rfl
  rw [hscore, jaroWinkler, hjaro]
  decide +kernel

private def mopedLayout : Layout :=
  (⟨[(Declaration.enum Moped true).toOption.get rfl], List.nodup_singleton _⟩ : Layout.Draft).freeze

/-- A letter too few is made up for, and the key that is suggested is registered. Capitals are not
    corrected. -/
theorem suggestions_actionable_moped :
    mopeds.resolve ["mopd"] = .error (.unknownImportKey "mopd" (some "moped")) ∧
    mopeds.contains "moped" = true ∧
    mopedLayout.field "mopd" = .error (.encodedValueNotFound "mopd" (some "moped")) ∧
    (∃ f, mopedLayout.field "moped" = .ok f) ∧
    mopedLayout.field "MOPED" = .error (.encodedValueNotFound "MOPED" none) := by
  obtain ⟨hsearch, hresolve, -, hfield⟩ := suggestions_actionable fun _ : Empty => Moped
  have hsuggest : Suggestion.suggest "mopd" ["moped"] = some "moped" := by
    obtain ⟨hsome, hnone⟩ := hsearch Suggestion.score "mopd" ["moped"]
    cases hs : Suggestion.suggestBy Suggestion.score "mopd" ["moped"] with
    | none =>
      obtain ⟨c, hc, hsame⟩ | hunreached := hnone.1 hs
      · rw [List.mem_singleton.1 hc] at hsame
        exact absurd hsame (by decide)
      · exact absurd threshold_le_score_mopd (hunreached "moped" List.mem_cons_self)
    | some s =>
      exact hs.trans (congrArg some (List.mem_singleton.1 (hsome s hs).1))
  have hkey : mopeds.resolve ["mopd"] = .error (.unknownImportKey "mopd" (some "moped")) := by
    rw [← hsuggest]
    exact Registry.visit_of_unknown List.not_mem_nil List.not_mem_nil rfl
  have hname : mopedLayout.field "mopd" =
      .error (.encodedValueNotFound "mopd" (some "moped")) := by
    have hnames : mopedLayout.names = ["moped"] := rfl
    rw [← hsuggest, ← hnames]
    exact Layout.field_of_notMem (by decide)
  obtain ⟨-, -, hknown⟩ := (hresolve mopeds ["mopd"] "mopd" (some "moped")).1 hkey
  obtain ⟨-, -, -, hfound⟩ := hfield mopedLayout "mopd" "mopd" _ (.inl hname)
  exact ⟨hkey, (hknown "moped" rfl).1, hname, (hfound "moped" rfl).1, rfl⟩

end EdgeAttributes
