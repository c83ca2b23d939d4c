import EdgeAttributes.Proofs.Pipeline.Frame
import EdgeAttributes.Proofs.Pipeline.Runs

namespace EdgeAttributes.Pipeline

variable {width : Nat} {p : Pipeline} {d : Layout.Draft}

/-- Known parsers never look for a word that is not there, in storage as wide as their layout. -/
theorem handle_ne_wordPastWidth (hp : ∀ q ∈ p.parsers, q.BuiltOn d.freeze)
    (hwidth : d.freeze.intsPerEdge ≤ width) (edge : Nat) (way : Way) (flags : RelationFlags)
    (s s' : EdgeStorage width) (index limit : Nat) :
    p.handle edge way flags s ≠ .error (.wordPastWidth index limit) s' := by
  intro hhandle
  by_cases hwide : p.intsPerEdge ≤ width
  · by_cases hskip : p.decide way = .skip
    · rw [handle_of_skip hwide hskip] at hhandle
      cases hhandle
    · have hmoves : Edit.Moves (p.parsers.forM fun q => (q.run edge way flags : Edit width Unit))
          fun _ _ => True := by
        apply Edit.Moves.forM (fun _ => trivial) fun _ _ _ _ _ => trivial
        intro q hq
        exact ((hp q hq).run_moves hwidth edge way flags).imp fun _ _ _ => trivial
      rw [handle_of_ne_skip hwide hskip, Edit.bind_eq_error_iff] at hhandle
      obtain hpast | ⟨_, t, -, hpure⟩ := hhandle
      · obtain ⟨t, -, hdone | ⟨e, hrefused⟩⟩ := hmoves s
        · cases hpast.symm.trans hdone
        · cases hpast.symm.trans hrefused
      · cases hpure
  · rw [handle_of_lt (Nat.lt_of_not_le hwide)] at hhandle
    cases hhandle

/-- What comes of a way, and what it stamps on its edge, is known before storage is. -/
theorem exists_outcome (hp : ∀ q ∈ p.parsers, q.BuiltOn d.freeze)
    (hwidth : d.freeze.intsPerEdge ≤ width) (way : Way) (flags : RelationFlags) :
    ∃ (outcome : Except Error Decision) (stamp : Option (Stamp width)), ∀ edge s,
      p.handle edge way flags s = Edit.ending (outcome.mapError .error) (s.stamped edge stamp) := by
  obtain ⟨result, stamp, hhandle⟩ :
      Edit.Stamps fun edge => (p.handle edge way flags : Edit width Decision) :=
    handle_stamps fun q hq => (hp q hq).run_stamps way flags
  cases result with
  | ok decision => exact ⟨.ok decision, stamp, hhandle⟩
  | error fault =>
    cases fault with
    | error e => exact ⟨.error e, stamp, hhandle⟩
    | wordPastWidth index limit =>
      have hpast := hhandle 0 (EdgeStorage.zeroed width 0)
      exact absurd hpast (handle_ne_wordPastWidth hp hwidth 0 way flags _ _ index limit)

/-- A way that is handed over again for the same edge comes to the same, and storage stays as the
    first time left it, word for word. It may have held anything before, and both times may end at a
    value that is refused. -/
theorem handle_again (hp : ∀ q ∈ p.parsers, q.BuiltOn d.freeze)
    (hwidth : d.freeze.intsPerEdge ≤ width) (edge : Nat) (way : Way) (flags : RelationFlags)
    (s : EdgeStorage width) :
    ∃ (outcome : Except Error Decision) (s' : EdgeStorage width),
      p.handle edge way flags s = Edit.ending (outcome.mapError .error) s' ∧
      p.handle edge way flags s' = Edit.ending (outcome.mapError .error) s' := by
  obtain ⟨outcome, stamp, hhandle⟩ := exists_outcome hp hwidth way flags
  refine ⟨outcome, s.stamped edge stamp, hhandle edge s, ?_⟩
  rw [hhandle, EdgeStorage.stamped_stamped_self]

private def carFlags : Declaration := (Declaration.boolean "cars" true).toOption.get rfl

private def mopedFlags : Declaration := (Declaration.boolean "mopeds" true).toOption.get rfl

private def flagsOnly : Layout.Draft := ⟨[carFlags, mopedFlags], by decide⟩

private def carField : BooleanField := ⟨⟨carFlags, ⟨0, 0, 1⟩, some ⟨0, 1, 1⟩⟩, rfl⟩

private def mopedField : BooleanField := ⟨⟨mopedFlags, ⟨0, 2, 1⟩, some ⟨0, 3, 1⟩⟩, rfl⟩

private def twoVehicles : Pipeline :=
  ⟨[(Vehicle.car false).parser carField, (Vehicle.moped false).parser mopedField],
    .ofList [("cars", 0), ("mopeds", 1)], 1⟩

private theorem twoVehicles_builtOn : ∀ q ∈ twoVehicles.parsers, q.BuiltOn flagsOnly.freeze := by
  have hfields : flagsOnly.freeze.fields = [carField.field, mopedField.field] := rfl
  intro q hq
  simp only [twoVehicles, List.mem_cons, List.not_mem_nil, or_false] at hq
  obtain rfl | rfl := hq
  · exact .vehicle _ _ (by simp [hfields])
  · exact .vehicle _ _ (by simp [hfields])

private def mopedTrack : Way := .ofTags 1 [("highway", "cycleway"), ("moped", "designated")]

private def motorway : Way := .ofTags 2 [("highway", "motorway"), ("oneway", "yes")]

private def steps : Way := .ofTags 3 [("highway", "steps")]

/-- An edge that had every bit set keeps the flags of cars, which skip the way. -/
theorem handle_again_mopedTrack : ∃ s',
    twoVehicles.handle 2 mopedTrack Layout.createRelationFlags
      ((EdgeStorage.zeroed 1 0).put 2 0 0xffffffff (by decide)) = .ok .usable s' ∧
    twoVehicles.handle 2 mopedTrack Layout.createRelationFlags s' = .ok .usable s' ∧
    ∀ reverse, carField.get s' 2 reverse = .ok true := by
  obtain ⟨outcome, s', hfirst, hsecond⟩ := handle_again twoVehicles_builtOn (le_refl 1) 2 mopedTrack
    Layout.createRelationFlags ((EdgeStorage.zeroed 1 0).put 2 0 0xffffffff (by decide))
  obtain ⟨t, hrun, hcar⟩ : ∃ t, twoVehicles.handle 2 mopedTrack Layout.createRelationFlags
      ((EdgeStorage.zeroed 1 0).put 2 0 0xffffffff (by decide)) = .ok .usable t ∧
      ∀ reverse, carField.get t 2 reverse = .ok true :=
    ⟨_, rfl, fun reverse => by cases reverse <;> rfl⟩
  cases outcome with
  | error e => cases hrun.symm.trans hfirst
  | ok decision =>
    cases hrun.symm.trans hfirst
    exact ⟨s', hfirst, hsecond, hcar⟩

/-- Hand ways to a pipeline one after the other, the next one also after a refusal. -/
def attemptAll (p : Pipeline) (calls : List Call) : Edit width (List (Except Fault Decision)) :=
  calls.mapM fun call => observing (p.handle call.edge call.way call.flags)

private theorem attemptAll_eq {outcome : Call → Except Error Decision}
    {stamp : Call → Option (Stamp width)}
    (hhandle : ∀ call edge s, p.handle edge call.way call.flags s =
      Edit.ending ((outcome call).mapError .error) (s.stamped edge (stamp call)))
    (calls : List Call) (s : EdgeStorage width) :
    p.attemptAll calls s = .ok (calls.map fun call => (outcome call).mapError .error)
      (calls.foldl (fun s call => s.stamped call.edge (stamp call)) s) := by
  induction calls generalizing s with
  | nil => rfl
  | cons call calls ih =>
    unfold attemptAll at ih ⊢
    rw [List.mapM_cons]
    refine Edit.bind_eq_ok_iff.2 ⟨(outcome call).mapError .error,
      s.stamped call.edge (stamp call), ?_, Edit.bind_eq_ok_iff.2 ⟨_, _, ih _, rfl⟩⟩
    exact Edit.observing_eq (hhandle call call.edge s)

/-- Ways for different edges may be handed over in any order. Each comes to the same, whichever went
    before it and whatever came of them, and storage ends up the same, with the same edges
    allocated. -/
theorem attemptAll_perm (hp : ∀ q ∈ p.parsers, q.BuiltOn d.freeze)
    (hwidth : d.freeze.intsPerEdge ≤ width) {calls : List Call}
    (hedges : (calls.map Call.edge).Nodup) (s : EdgeStorage width) :
    ∃ (outcome : Call → Except Error Decision) (s' : EdgeStorage width),
      ∀ order : List Call, order.Perm calls →
        p.attemptAll order s = .ok (order.map fun call => (outcome call).mapError .error) s' := by
  choose outcome stamp hhandle using fun call : Call =>
    exists_outcome hp hwidth call.way call.flags
  refine ⟨outcome, calls.foldl (fun s call => s.stamped call.edge (stamp call)) s,
    fun order horder => ?_⟩
  rw [attemptAll_eq hhandle]
  congr 1
  apply horder.foldl_eq'
  intro call hcall call' hcall' t
  by_cases heq : call = call'
  · rw [heq]
  · have hinj := List.inj_on_of_nodup_map hedges (horder.mem_iff.1 hcall) (horder.mem_iff.1 hcall')
    exact EdgeStorage.stamped_comm t (fun hedge => heq (hinj hedge)) _ _

private def atSix : Call := ⟨6, mopedTrack, Layout.createRelationFlags⟩

private def atZero : Call := ⟨0, steps, Layout.createRelationFlags⟩

private def atThree : Call := ⟨3, motorway, Layout.createRelationFlags⟩

/-- The steps, which both vehicles skip, may come between two roads or after them. -/
theorem attemptAll_perm_three : ∃ s',
    twoVehicles.attemptAll [atSix, atZero, atThree] (EdgeStorage.zeroed 1 0) =
      .ok [.ok .usable, .ok .skip, .ok .usable] s' ∧
    twoVehicles.attemptAll [atThree, atSix, atZero] (EdgeStorage.zeroed 1 0) =
      .ok [.ok .usable, .ok .usable, .ok .skip] s' := by
  have hedges : ([atSix, atZero, atThree].map Call.edge).Nodup := by decide
  obtain ⟨outcome, s', horder⟩ := attemptAll_perm twoVehicles_builtOn (le_refl 1) hedges
    (EdgeStorage.zeroed 1 0)
  have hgiven := horder [atSix, atZero, atThree] (.refl _)
  have hmoved := horder [atThree, atSix, atZero] (List.perm_append_singleton _ _).symm
  obtain ⟨t, hrun⟩ : ∃ t, twoVehicles.attemptAll [atSix, atZero, atThree] (EdgeStorage.zeroed 1 0) =
      .ok [.ok .usable, .ok .skip, .ok .usable] t := ⟨_, rfl⟩
  rw [hrun, EStateM.Result.ok.injEq] at hgiven
  obtain ⟨hresults, rfl⟩ := hgiven
  simp only [List.map_cons, List.map_nil, List.cons.injEq, and_true] at hresults hmoved
  obtain ⟨hsix, hzero, hthree⟩ := hresults
  rw [← hsix, ← hzero, ← hthree] at hmoved
  exact ⟨t, hrun, hmoved⟩

end EdgeAttributes.Pipeline
