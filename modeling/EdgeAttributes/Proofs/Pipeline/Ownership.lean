import EdgeAttributes.Pipeline
import EdgeAttributes.Proofs.Calls

namespace EdgeAttributes.Pipeline

variable {p p' : Pipeline} {q : TagParser}

/-- The pipeline with a parser behind the others that owns all of its names. -/
def extended (p : Pipeline) (q : TagParser) : Pipeline where
  parsers := p.parsers ++ [q]
  owners := q.writes.foldl (fun owners name => owners.insert name p.parsers.length) p.owners
  intsPerEdge := p.intsPerEdge

theorem parsers_extended (p : Pipeline) (q : TagParser) :
    (p.extended q).parsers = p.parsers ++ [q] := rfl

private theorem get?_foldl_insert (names : List String) (i : Nat) (owners : SortedMap Nat)
    (name : String) :
    (names.foldl (fun owners name => owners.insert name i) owners).get? name =
      if name ∈ names then some i else owners.get? name := by
  induction names generalizing owners with
  | nil => simp
  | cons first names ih =>
    rw [List.foldl_cons, ih, SortedMap.get?_insert]
    by_cases hname : name ∈ names
    · simp [hname]
    · simp [hname]

theorem owner?_extended (p : Pipeline) (q : TagParser) (name : String) :
    (p.extended q).owner? name =
      if name ∈ q.writes then some p.parsers.length else p.owner? name :=
  get?_foldl_insert q.writes p.parsers.length p.owners name

private theorem refuseOwned_eq (p : Pipeline) (q : TagParser) (name : String) :
    refuseOwned q name p =
      if (p.owner? name).isSome then .error (p.twoWriters q name) p else .ok () p := by
  by_cases howned : (p.owner? name).isSome = true
  · rw [if_pos howned]
    simp only [refuseOwned, bind, EStateM.bind, get, getThe, MonadStateOf.get, EStateM.get, howned]
    rfl
  · rw [if_neg howned]
    simp only [refuseOwned, bind, EStateM.bind, get, getThe, MonadStateOf.get, EStateM.get, howned]
    rfl

/-- Looking for a name that is taken changes nothing, and ends at the first one. -/
private theorem forM_refuseOwned (p : Pipeline) (q : TagParser) (names : List String) :
    names.forM (refuseOwned q) p =
      match names.find? fun name => (p.owner? name).isSome with
      | some name => .error (p.twoWriters q name) p
      | none => .ok () p := by
  induction names with
  | nil => rfl
  | cons name names ih =>
    change EStateM.bind (refuseOwned q name) (fun _ => names.forM (refuseOwned q)) p = _
    rw [EStateM.bind, refuseOwned_eq, List.find?_cons]
    by_cases howned : (p.owner? name).isSome = true
    · simp only [howned, if_true]
    · simp only [howned]
      exact ih

private theorem forM_claim (p : Pipeline) (names : List String) :
    names.forM claim p = .ok () { p with
      owners := names.foldl (fun owners name => owners.insert name p.parsers.length)
        p.owners } := by
  induction names generalizing p with
  | nil => rfl
  | cons name names ih => exact ih _

/-- A parser with a name that is taken is refused, and the pipeline stays as it is. Any other parser
    is added. -/
theorem enroll_eq (p : Pipeline) (q : TagParser) :
    enroll q p =
      match q.writes.find? fun name => (p.owner? name).isSome with
      | some name => .error (p.twoWriters q name) p
      | none => .ok () (p.extended q) := by
  change EStateM.bind (q.writes.forM (refuseOwned q)) _ p = _
  rw [EStateM.bind, forM_refuseOwned]
  cases q.writes.find? fun name => (p.owner? name).isSome with
  | some name => rfl
  | none =>
    change EStateM.bind (q.writes.forM claim) _ p = _
    rw [EStateM.bind, forM_claim]
    rfl

/-- Some name of a parser is taken, or all are free. -/
theorem owned_or_free (p : Pipeline) (q : TagParser) :
    (∃ name ∈ q.writes, (p.owner? name).isSome = true) ∨
      ∀ name ∈ q.writes, p.owner? name = none := by
  by_cases howned : ∃ name ∈ q.writes, (p.owner? name).isSome = true
  · exact .inl howned
  · refine .inr fun name hname => ?_
    rw [← Option.not_isSome_iff_eq_none]
    exact fun hsome => howned ⟨name, hname, hsome⟩

theorem enroll_of_owned (h : ∃ name ∈ q.writes, (p.owner? name).isSome = true) :
    ∃ name ∈ q.writes, (p.owner? name).isSome = true ∧
      enroll q p = .error (p.twoWriters q name) p := by
  rw [enroll_eq]
  cases hfind : q.writes.find? fun name => (p.owner? name).isSome with
  | none =>
    obtain ⟨name, hname, howned⟩ := h
    exact absurd howned (List.find?_eq_none.1 hfind name hname)
  | some name =>
    have howned := List.find?_some hfind
    exact ⟨name, List.mem_of_find?_eq_some hfind, howned, rfl⟩

theorem enroll_of_free (h : ∀ name ∈ q.writes, p.owner? name = none) :
    enroll q p = .ok () (p.extended q) := by
  have hfind : (q.writes.find? fun name => (p.owner? name).isSome) = none :=
    List.find?_eq_none.2 fun name hname => by simp [h name hname]
  rw [enroll_eq, hfind]

/-- A parser is added exactly if none of its names is taken. -/
theorem add_eq_ok_iff :
    p.add q = .ok p' ↔ (∀ name ∈ q.writes, p.owner? name = none) ∧ p.extended q = p' := by
  rcases p.owned_or_free q with howned | hfree
  · obtain ⟨name, hname, hsome, hrefused⟩ := enroll_of_owned howned
    rw [add, hrefused]
    refine iff_of_false nofun fun h => ?_
    rw [h.1 name hname] at hsome
    cases hsome
  · rw [add, enroll_of_free hfree, Except.ok.injEq]
    exact (and_iff_right hfree).symm

/-- The table has each name that some parser writes, with the position of that parser, and no
    other. -/
def Owned (p : Pipeline) : Prop :=
  ∀ name i, p.owner? name = some i ↔ ∃ q, p.parsers[i]? = some q ∧ name ∈ q.writes

namespace Owned

theorem ofWidth (intsPerEdge : Nat) : (ofWidth intsPerEdge).Owned := by
  intro name i
  simp [Pipeline.ofWidth, owner?]

theorem owner?_eq_none_iff (hp : p.Owned) {name : String} :
    p.owner? name = none ↔ ∀ q ∈ p.parsers, name ∉ q.writes := by
  rw [Option.eq_none_iff_forall_not_mem]
  constructor
  · intro hnone q hq hname
    obtain ⟨i, hi⟩ := List.mem_iff_getElem?.1 hq
    exact hnone i ((hp name i).2 ⟨q, hi, hname⟩)
  · intro hunwritten i howner
    obtain ⟨q, hq, hname⟩ := (hp name i).1 howner
    exact hunwritten q (List.mem_of_getElem? hq) hname

/-- A refusal shows the parser that writes the name, and the one that is refused. -/
theorem exists_twoWriters_eq (hp : p.Owned) {name : String}
    (hname : (p.owner? name).isSome = true) (q : TagParser) :
    ∃ owner ∈ p.parsers, name ∈ owner.writes ∧
      p.twoWriters q name = .config (.twoWriters name owner.debugText q.debugText) := by
  obtain ⟨i, hi⟩ := Option.isSome_iff_exists.1 hname
  obtain ⟨owner, howner, hwrites⟩ := (hp name i).1 hi
  refine ⟨owner, List.mem_of_getElem? howner, hwrites, ?_⟩
  rw [twoWriters, ownerText, hi, Option.bind_some, howner]
  rfl

/-- No two positions hold parsers of one name. -/
theorem position_unique (hp : p.Owned) {i j : Nat} {q q' : TagParser} {name : String}
    (hq : p.parsers[i]? = some q) (hq' : p.parsers[j]? = some q') (hname : name ∈ q.writes)
    (hname' : name ∈ q'.writes) : i = j := by
  have hi := (hp name i).2 ⟨q, hq, hname⟩
  have hj := (hp name j).2 ⟨q', hq', hname'⟩
  exact Option.some.inj (hi.symm.trans hj)

theorem pairwise_disjoint (hp : p.Owned) :
    p.parsers.Pairwise fun q q' => List.Disjoint q.writes q'.writes := by
  rw [List.pairwise_iff_getElem]
  intro i j hi hj hlt name hname hname'
  have heq := hp.position_unique (List.getElem?_eq_getElem hi) (List.getElem?_eq_getElem hj) hname
    hname'
  omega

/-- The table still has all names and no other once a parser is added whose names were free. -/
theorem extended (hp : p.Owned) (hfree : ∀ name ∈ q.writes, p.owner? name = none) :
    (p.extended q).Owned := by
  intro name i
  rw [owner?_extended, parsers_extended]
  rcases lt_trichotomy i p.parsers.length with hlt | rfl | hgt
  · rw [List.getElem?_append_left hlt, ← hp name i]
    by_cases hname : name ∈ q.writes
    · rw [if_pos hname, hfree name hname]
      simp [hlt.ne']
    · rw [if_neg hname]
  · rw [List.getElem?_concat_length]
    by_cases hname : name ∈ q.writes
    · simp [hname]
    · simp only [Option.some.injEq, exists_eq_left', hname, iff_false]
      intro howner
      obtain ⟨q', hq', -⟩ := (hp name _).1 howner
      simp at hq'
  · have hnone : (p.parsers ++ [q])[i]? = none := by simp; omega
    rw [hnone]
    refine iff_of_false (fun howner => ?_) (by simp)
    by_cases hname : name ∈ q.writes
    · rw [if_pos hname] at howner
      exact hgt.ne (Option.some.inj howner)
    · rw [if_neg hname] at howner
      obtain ⟨q', hq', -⟩ := (hp name i).1 howner
      rw [List.getElem?_eq_none hgt.le] at hq'
      cases hq'

end Owned

theorem stateAfter_of_owned (h : ∃ name ∈ q.writes, (p.owner? name).isSome = true) :
    stateAfter enroll p q = p := by
  obtain ⟨name, -, -, hrefused⟩ := enroll_of_owned h
  exact stateAfter_of_error hrefused

theorem stateAfter_of_free (h : ∀ name ∈ q.writes, p.owner? name = none) :
    stateAfter enroll p q = p.extended q :=
  stateAfter_of_ok (enroll_of_free h)

/-- One call keeps the table in step with the parsers, also if it is refused. -/
theorem Owned.stateAfter (hp : p.Owned) (q : TagParser) : (stateAfter enroll p q).Owned := by
  rcases p.owned_or_free q with howned | hfree
  · rw [stateAfter_of_owned howned]
    exact hp
  · rw [stateAfter_of_free hfree]
    exact hp.extended hfree

theorem Owned.stateAfterAll (hp : p.Owned) (calls : List TagParser) :
    (stateAfterAll enroll p calls).Owned :=
  stateAfterAll_invariant (fun _ q howned => howned.stateAfter q) hp calls

theorem intsPerEdge_stateAfter (p : Pipeline) (q : TagParser) :
    (stateAfter enroll p q).intsPerEdge = p.intsPerEdge := by
  rcases p.owned_or_free q with howned | hfree
  · rw [stateAfter_of_owned howned]
  · rw [stateAfter_of_free hfree]
    rfl

theorem intsPerEdge_stateAfterAll (p : Pipeline) (calls : List TagParser) :
    (stateAfterAll enroll p calls).intsPerEdge = p.intsPerEdge :=
  stateAfterAll_invariant (P := fun p' : Pipeline => p'.intsPerEdge = p.intsPerEdge)
    (fun p' q hwidth => (p'.intsPerEdge_stateAfter q).trans hwidth) rfl calls

/-- Each value has a single writer, whatever parsers were handed over and whichever of them were
    refused. The table names the one parser that writes a value, and no value that none writes. The
    next parser is refused exactly if one of its names is taken, with a report of both writers of
    that name, and then nothing changes at all; otherwise it comes last and owns its names beside
    what was owned before. -/
theorem enroll_single_writer (intsPerEdge : Nat) (calls : List TagParser) :
    let p := stateAfterAll enroll (ofWidth intsPerEdge) calls
    p.intsPerEdge = intsPerEdge ∧
    (∀ name i, p.owner? name = some i ↔ ∃ q, p.parsers[i]? = some q ∧ name ∈ q.writes) ∧
    (∀ (i j : Nat) (q q' : TagParser) name, p.parsers[i]? = some q → p.parsers[j]? = some q' →
      name ∈ q.writes → name ∈ q'.writes → i = j) ∧
    ∀ q : TagParser,
      ((∃ name ∈ q.writes, (p.owner? name).isSome = true) →
        stateAfterAll enroll p [q] = p ∧ ∃ name ∈ q.writes, (p.owner? name).isSome = true ∧
          ∃ owner ∈ p.parsers, name ∈ owner.writes ∧ enroll q p =
            .error (.config (.twoWriters name owner.debugText q.debugText)) p) ∧
      ((∀ name ∈ q.writes, p.owner? name = none) → ∃ p', stateAfterAll enroll p [q] = p' ∧
        enroll q p = .ok () p' ∧ p'.parsers = p.parsers ++ [q] ∧ p'.intsPerEdge = p.intsPerEdge ∧
        ∀ name, p'.owner? name =
          if name ∈ q.writes then some p.parsers.length else p.owner? name) := by
  intro p
  have howned : p.Owned := (Owned.ofWidth intsPerEdge).stateAfterAll calls
  refine ⟨intsPerEdge_stateAfterAll _ calls, howned,
    fun i j q q' name => howned.position_unique, fun q => ⟨?_, ?_⟩⟩
  · intro htaken
    obtain ⟨name, hname, hsome, hrefused⟩ := enroll_of_owned htaken
    obtain ⟨owner, howner, hwrites, herror⟩ := howned.exists_twoWriters_eq hsome q
    exact ⟨stateAfter_of_owned htaken, name, hname, hsome, owner, howner, hwrites,
      herror ▸ hrefused⟩
  · intro hfree
    exact ⟨p.extended q, stateAfter_of_free hfree, enroll_of_free hfree, rfl, rfl,
      p.owner?_extended q⟩

-- A parser that is refused for its second name does not keep the first one.
example :
    let p := stateAfterAll enroll (ofWidth 1)
      [.ofAssignments "Circles" ["roundabout"] (fun _ _ => []) fun _ => none,
        .ofAssignments "Mopeds" ["moped", "roundabout"] (fun _ _ => []) fun _ => none]
    p.size = 1 ∧ p.owner? "moped" = none ∧ p.owner? "roundabout" = some 0 := by
  decide

end EdgeAttributes.Pipeline
