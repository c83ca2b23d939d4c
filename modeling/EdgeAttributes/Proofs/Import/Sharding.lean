import EdgeAttributes.Import.Run
import EdgeAttributes.Proofs.Pipeline.Replay
import EdgeAttributes.Proofs.Registry.Totality

namespace EdgeAttributes

variable {width : Nat}

namespace Import

namespace Summary

/-- Count a way by its decision, or as failed if there is none. -/
def add (s : Summary) : Option Decision → Summary
  | some decision => s.count decision
  | none => s.countFailed

/-- The counts of ways with given decisions. -/
def tally (decisions : List (Option Decision)) : Summary where
  usable := decisions.count (some .usable)
  special := decisions.count (some .special)
  skipped := decisions.count (some .skip)
  failed := decisions.count none

theorem merge_tally_cons (s : Summary) (decision : Option Decision)
    (decisions : List (Option Decision)) :
    s.merge (tally (decision :: decisions)) = (s.add decision).merge (tally decisions) := by
  rcases decision with _ | _ | _ | _ <;>
    simp [merge, tally, add, count, countFailed, Nat.add_assoc, Nat.add_comm 1]

theorem merge_tally_append (s : Summary) (decisions decisions' : List (Option Decision)) :
    s.merge (tally (decisions ++ decisions')) =
      (s.merge (tally decisions)).merge (tally decisions') := by
  simp [merge, tally, List.count_append, Nat.add_assoc]

theorem total_tally (decisions : List (Option Decision)) :
    (tally decisions).usable + (tally decisions).special + (tally decisions).skipped +
      (tally decisions).failed = decisions.length := by
  induction decisions with
  | nil => rfl
  | cons decision decisions ih =>
    simp only [tally] at ih
    rcases decision with _ | _ | _ | _ <;> simp [tally] <;> omega

end Summary

/-- Pieces put together again are the list that was cut. -/
theorem flatten_shards {α : Type} (size : Nat) (hsize : 0 < size) (l : List α) :
    (shards size hsize l).flatten = l := by
  fun_induction shards size hsize l with
  | case1 => rfl
  | case2 l hne ih => rw [List.flatten_cons, ih, List.take_append_drop]

variable (a : Assembly)

/-- A way handled as the only edge of fresh storage. -/
def handleAlone (way : Way) : EStateM.Result Fault (EdgeStorage a.layout.intsPerEdge) Decision :=
  a.pipeline.handle 0 way Layout.createRelationFlags (a.layout.createStorage 1)

/-- The fault that a way ends at on its own if that is not an error, which ends an import as
    well. -/
def panicAlone (way : Way) : Option Fault :=
  match handleAlone a way with
  | .error (.wordPastWidth index limit) _ => some (.wordPastWidth index limit)
  | _ => none

/-- The decision for a way on its own; none if it fails. -/
def decisionAlone (way : Way) : Option Decision :=
  match handleAlone a way with
  | .ok access _ => some access
  | .error _ _ => none

/-- The record of a way on its own; none if it is skipped or fails. -/
def recordAlone (way : Way) : Option Record :=
  match handleAlone a way with
  | .ok access s => if access.isSkip then none else (Record.read a.layout s 0 way access).toOption
  | .error _ _ => none

variable {a}

theorem Record.read_congr (l : Layout) {s s' : EdgeStorage width} {edge edge' : Nat}
    (hcell : s.cell edge = s'.cell edge') (way : Way) (access : Decision) :
    Record.read l s edge way access = Record.read l s' edge' way access := by
  simp only [Record.read, Field.texts_congr _ hcell]

/-- The record of a way has its id and decision, and the texts of an edge for every value of a
    layout under the name of that value. -/
def Record.Describes (l : Layout) (s : EdgeStorage width) (edge : Nat) (way : Way)
    (access : Decision) (record : Record) : Prop :=
  ∃ values, List.Forall₂ (fun f value => value.1 = Field.name f ∧ f.texts s edge = .ok value.2)
    l.fields values ∧ record = ⟨way.id, access, .ofList values⟩

theorem Record.read_eq_ok_iff {l : Layout} {s : EdgeStorage width} {edge : Nat} {way : Way}
    {access : Decision} {record : Record} :
    Record.read l s edge way access = .ok record ↔ record.Describes l s edge way access := by
  have hvalue (f : Field) (value : String × Field.Texts) :
      (do return (f.name, ← f.texts s edge)) = Except.ok (ε := Fault) value ↔
        value.1 = f.name ∧ f.texts s edge = .ok value.2 := by
    rw [bind_eq_ok_iff]
    constructor
    · rintro ⟨texts, htexts, h⟩
      cases h
      exact ⟨rfl, htexts⟩
    · rintro ⟨hname, htexts⟩
      exact ⟨value.2, htexts, by rw [← hname]; rfl⟩
  rw [Record.read, bind_eq_ok_iff]
  simp only [mapM_eq_ok_iff, hvalue]
  constructor
  · rintro ⟨values, hvalues, h⟩
    cases h
    exact ⟨values, hvalues, rfl⟩
  · rintro ⟨values, hvalues, rfl⟩
    exact ⟨values, hvalues, rfl⟩

theorem Record.read_eq_ok {l : Layout}
    (hindex : ∀ f ∈ l.fields, ∀ reverse, (f.slot reverse).index < width) (s : EdgeStorage width)
    (edge : Nat) (way : Way) (access : Decision) :
    ∃ record, Record.read l s edge way access = .ok record := by
  simp only [read_eq_ok_iff, Describes]
  have hvalues : ∃ values : List (String × Field.Texts), List.Forall₂
      (fun f value => value.1 = Field.name f ∧ f.texts s edge = .ok value.2) l.fields values := by
    generalize l.fields = fields at hindex
    induction fields with
    | nil => exact ⟨[], .nil⟩
    | cons f fields ih =>
      obtain ⟨texts, htexts⟩ := f.texts_eq_ok (hindex f List.mem_cons_self) s edge
      obtain ⟨values, hvalues⟩ := ih fun g hg => hindex g (List.mem_cons_of_mem _ hg)
      exact ⟨(f.name, texts) :: values, .cons ⟨rfl, htexts⟩ hvalues⟩
  obtain ⟨values, hvalues⟩ := hvalues
  exact ⟨_, values, hvalues, rfl⟩

section

-- Every layout that is frozen has its slots in the words of an edge.
variable
  (hindex : ∀ f ∈ a.layout.fields, ∀ reverse, (f.slot reverse).index < a.layout.intsPerEdge)
include hindex

section Confined

variable (hparsers : ∀ q ∈ a.pipeline.parsers, q.Confined)
include hparsers

/-- A way that is taken where its edge was never written comes to what it comes to alone, and leaves
    all other edges as they were. What else storage holds does not matter. -/
theorem ShardState.take_eq {edge : Nat} (way : Way) (s : ShardState a.layout.intsPerEdge)
    (hblank : s.storage.cell edge = EdgeStorage.blank _) :
    ∃ t, (∀ other, other ≠ edge → t.cell other = s.storage.cell other) ∧
      s.take a edge way = match panicAlone a way with
        | some fault => .error fault
        | none => .ok ⟨t, s.summary.add (decisionAlone a way),
            (recordAlone a way).toList ++ s.records⟩ := by
  have hcell : s.storage.cell edge = (a.layout.createStorage 1).cell 0 := by
    rw [hblank, Layout.createStorage, EdgeStorage.cell_zeroed]
  obtain ⟨storage, summary, records⟩ := s
  obtain ⟨t, t', hwords, hothers, ⟨access, hhandle, halone⟩ | ⟨fault, hhandle, halone⟩⟩ :=
    (Pipeline.handle_confined hparsers way Layout.createRelationFlags).congr hcell
  · obtain ⟨record, hread⟩ := Record.read_eq_ok hindex t edge way access
    have hreadAlone : Record.read a.layout t' 0 way access = .ok record := by
      rw [← Record.read_congr a.layout hwords, hread]
    refine ⟨t, hothers, ?_⟩
    simp only at hhandle
    simp only [take, panicAlone, decisionAlone, recordAlone, handleAlone, hhandle, halone, hread,
      hreadAlone, Summary.add]
    cases access.isSkip with
    | true => rfl
    | false => rfl
  · refine ⟨t, hothers, ?_⟩
    simp only at hhandle
    cases fault with
    | error e =>
      simp only [take, panicAlone, decisionAlone, recordAlone, handleAlone, hhandle, halone,
        Summary.add]
      rfl
    | wordPastWidth index limit => simp only [take, panicAlone, handleAlone, hhandle, halone]

/-- Ways taken one after the other on edges that were never written all come to what they come to
    alone, or end at the first fault that ends an import. A way that fails may have written its own
    edge, and no later way looks there. -/
theorem ShardState.foldlM_take (ways : List Way) (first : Nat)
    (s : ShardState a.layout.intsPerEdge)
    (hblank : ∀ edge, first ≤ edge → s.storage.cell edge = EdgeStorage.blank _) :
    ∃ t, (ways.zipIdx first).foldlM (fun s (way, edge) => s.take a edge way) s =
      match ways.findSome? (panicAlone a) with
      | some fault => .error fault
      | none => .ok ⟨t, s.summary.merge (Summary.tally (ways.map (decisionAlone a))),
          (ways.filterMap (recordAlone a)).reverse ++ s.records⟩ := by
  induction ways generalizing first s with
  | nil => exact ⟨s.storage, rfl⟩
  | cons way ways ih =>
    obtain ⟨t, hothers, htake⟩ := s.take_eq hindex hparsers way (hblank first (Nat.le_refl _))
    simp only [List.zipIdx_cons, List.foldlM_cons, htake, List.findSome?_cons]
    cases panicAlone a way with
    | some fault => exact ⟨t, rfl⟩
    | none =>
      obtain ⟨t', hrest⟩ := ih (first + 1) ⟨t, s.summary.add (decisionAlone a way),
          (recordAlone a way).toList ++ s.records⟩ fun edge hedge => by
        rw [hothers edge (by omega)]
        exact hblank edge (by omega)
      refine ⟨t', hrest.trans ?_⟩
      rw [List.map_cons, Summary.merge_tally_cons, List.filterMap_cons]
      cases recordAlone a way with
      | none => rfl
      | some record => simp

theorem runShard_eq (ways : List Way) : runShard a ways =
    match ways.findSome? (panicAlone a) with
    | some fault => .error fault
    | none =>
      .ok (Summary.tally (ways.map (decisionAlone a)), ways.filterMap (recordAlone a)) := by
  obtain ⟨t, hrun⟩ := ShardState.foldlM_take hindex hparsers ways 0
    ⟨a.layout.createStorage ways.length, .empty, []⟩ fun edge _ => EdgeStorage.cell_zeroed _ _ _
  rw [runShard, hrun]
  cases ways.findSome? (panicAlone a) with
  | some fault => rfl
  | none => simp [Summary.merge, Summary.empty, bind, Except.bind, pure, Except.pure]

/-- Shards come to their ways one after the other, or end at the first fault among these. -/
theorem mapM_runShard (pieces : List (List Way)) : pieces.mapM (runShard a) =
    match pieces.flatten.findSome? (panicAlone a) with
    | some fault => .error fault
    | none => .ok (pieces.map fun ways =>
        (Summary.tally (ways.map (decisionAlone a)), ways.filterMap (recordAlone a))) := by
  induction pieces with
  | nil => rfl
  | cons ways pieces ih =>
    rw [List.mapM_cons, runShard_eq hindex hparsers, ih, List.flatten_cons, List.findSome?_append]
    cases ways.findSome? (panicAlone a) with
    | some fault => rfl
    | none =>
      cases pieces.flatten.findSome? (panicAlone a) with
      | some fault => rfl
      | none => rfl

/-- Shards add up to one shard of all ways, wherever they are cut. -/
theorem run_eq_runShard (ways : List Way) : run a ways = runShard a ways := by
  have hfold (pieces : List (List Way)) (s : Summary) :
      (pieces.map fun piece => Summary.tally (piece.map (decisionAlone a))).foldl Summary.merge s =
        s.merge (Summary.tally (pieces.flatten.map (decisionAlone a))) := by
    induction pieces generalizing s with
    | nil => rfl
    | cons piece pieces ih =>
      rw [List.map_cons, List.foldl_cons, ih, List.flatten_cons, List.map_append,
        Summary.merge_tally_append]
  have hrecords (pieces : List (List Way)) :
      pieces.flatMap (List.filterMap (recordAlone a)) =
        pieces.flatten.filterMap (recordAlone a) := by
    rw [List.filterMap_flatten, List.flatMap_def]
  rw [run, mapM_runShard hindex hparsers, runShard_eq hindex hparsers, flatten_shards]
  cases ways.findSome? (panicAlone a) with
  | some fault => rfl
  | none =>
    change Except.ok _ = Except.ok _
    simp only [List.map_map, List.flatMap_map, Function.comp_def]
    rw [hfold, hrecords, flatten_shards]
    simp [Summary.merge, Summary.empty]

end Confined

theorem recordAlone_eq_some_iff {way : Way} {record : Record} :
    recordAlone a way = some record ↔
      ∃ access s, handleAlone a way = .ok access s ∧ access ≠ .skip ∧
        record.Describes a.layout s 0 way access := by
  rw [recordAlone]
  cases handleAlone a way with
  | error fault s => simp
  | ok access s =>
    obtain ⟨found, hfound⟩ := Record.read_eq_ok hindex s 0 way access
    simp only [← Record.read_eq_ok_iff, EStateM.Result.ok.injEq, existsAndEq]
    cases access with
    | skip => simp [Decision.isSkip]
    | usable => simp [Decision.isSkip, Except.toOption, hfound]
    | special => simp [Decision.isSkip, Except.toOption, hfound]

theorem isSome_recordAlone (way : Way) : (recordAlone a way).isSome =
    (decisionAlone a way == some .usable || decisionAlone a way == some .special) := by
  rw [recordAlone, decisionAlone]
  cases handleAlone a way with
  | error fault s => rfl
  | ok access s =>
    obtain ⟨found, hfound⟩ := Record.read_eq_ok hindex s 0 way access
    cases access with
    | skip => rfl
    | usable => simp [Decision.isSkip, Except.toOption, hfound]
    | special => simp [Decision.isSkip, Except.toOption, hfound]

theorem length_records (ways : List Way) : (ways.filterMap (recordAlone a)).length =
    (Summary.tally (ways.map (decisionAlone a))).usable +
      (Summary.tally (ways.map (decisionAlone a))).special := by
  rw [List.length_filterMap_eq_countP, Summary.tally]
  induction ways with
  | nil => rfl
  | cons way ways ih =>
    simp only at ih
    rw [List.countP_cons, ih, isSome_recordAlone hindex]
    simp only [List.map_cons, List.count_cons]
    rcases decisionAlone a way with _ | _ | _ | _ <;> simp <;> omega

end

/-- A way on its own comes upon a word that storage does not have. -/
def Panics (a : Assembly) (way : Way) : Prop :=
  ∃ index limit s, handleAlone a way = .error (.wordPastWidth index limit) s

theorem panicAlone_eq_none_iff {way : Way} : panicAlone a way = none ↔ ¬ Panics a way := by
  rw [panicAlone, Panics]
  cases handleAlone a way with
  | ok access s => simp
  | error fault s =>
    cases fault with
    | error e => simp
    | wordPastWidth index limit => simp

theorem findSome?_panicAlone_eq_none_iff {ways : List Way} :
    ways.findSome? (panicAlone a) = none ↔ ∀ way ∈ ways, ¬ Panics a way := by
  simp only [List.findSome?_eq_none_iff, panicAlone_eq_none_iff]

/-- An import of any ways, however many there are and wherever they are cut into shards, comes to
    what each way comes to alone on fresh storage of a single edge. There is one record for each way
    that is decided as usable or special alone, in the order of the ways, with the texts of all
    values stored there. A way that is skipped or fails has no record, and shows in no other. The
    recipes of the assembly may be any whose parsers are confined to their edge, and a worker for
    each shard changes nothing, since shards share nothing. Only a way that comes upon a word that
    storage does not have ends the import, and then there are neither counts nor records. No way
    does so with known parsers alone. -/
theorem run_eq_alone {r : Registry} {keys : List String} {p : Properties} {a : Assembly}
    (h : r.assemble keys p = .ok a) (hparsers : ∀ q ∈ a.pipeline.parsers, q.Confined)
    (ways : List Way) :
    ((∃ fault, run a ways = .error fault) ↔ ∃ way ∈ ways, Panics a way) ∧
    ((∀ way ∈ ways, ¬ Panics a way) → ∃ summary records, run a ways = .ok (summary, records) ∧
      records = ways.filterMap (recordAlone a) ∧
      summary = Summary.tally (ways.map (decisionAlone a)) ∧
      summary.usable + summary.special + summary.skipped + summary.failed = ways.length ∧
      summary.usable + summary.special = records.length) ∧
    (∀ way access s, handleAlone a way = .ok access s → access ≠ .skip →
      ∃ record, recordAlone a way = some record) ∧
    (∀ way record, recordAlone a way = some record ↔
      ∃ access s, handleAlone a way = .ok access s ∧ access ≠ .skip ∧
        record.Describes a.layout s 0 way access) ∧
    run a ways = runShard a ways ∧
    ((∀ q ∈ a.pipeline.parsers, q.BuiltOn a.layout) → ∀ way, ¬ Panics a way) := by
  obtain ⟨d, hlayout⟩ := Registry.layout_of_assemble h
  have hindex : ∀ f ∈ a.layout.fields, ∀ reverse,
      (f.slot reverse).index < a.layout.intsPerEdge := by
    rw [hlayout]
    exact fun f hf reverse => d.slot_index_lt hf reverse
  have hrun := (run_eq_runShard hindex hparsers ways).trans (runShard_eq hindex hparsers ways)
  refine ⟨?_, fun hnone => ?_, ?_, fun way record => recordAlone_eq_some_iff hindex,
    run_eq_runShard hindex hparsers ways, fun hknown way => ?_⟩
  · rw [hrun, ← not_iff_not]
    push Not
    rw [← findSome?_panicAlone_eq_none_iff]
    cases ways.findSome? (panicAlone a) with
    | some fault => simp
    | none => simp
  · rw [findSome?_panicAlone_eq_none_iff.2 hnone] at hrun
    refine ⟨_, _, hrun, rfl, rfl, ?_, ?_⟩
    · rw [Summary.total_tally, List.length_map]
    · rw [length_records hindex]
  · intro way access s halone hskip
    obtain ⟨record, hread⟩ := Record.read_eq_ok hindex s 0 way access
    exact ⟨record, (recordAlone_eq_some_iff hindex).2
      ⟨access, s, halone, hskip, Record.read_eq_ok_iff.1 hread⟩⟩
  · rintro ⟨index, limit, s, halone⟩
    have hwidth : d.freeze.intsPerEdge ≤ a.layout.intsPerEdge := by rw [hlayout]
    rw [hlayout] at hknown
    exact Pipeline.handle_ne_wordPastWidth hknown hwidth 0 way _ _ s index limit halone

private def tagCount : Recipe where
  declare _ := Declaration.int "tag_count" 2 false
  makeParser l _ := (l.intField "tag_count").map fun f =>
    .ofField "TagCounter" f.field fun way _ => [.integer f false way.tagCount]
  required := []

private def carsAndCounts : Registry where
  recipes := .ofList [("car_access", .access "car" Vehicle.carOf []), ("tag_count", tagCount)]

private theorem resolve_carsAndCounts :
    carsAndCounts.resolve ["car_access", "tag_count"] = .ok ["car_access", "tag_count"] := by
  have hcar : carsAndCounts.recipe? "car_access" = some (.access "car" Vehicle.carOf []) := rfl
  have hcount : carsAndCounts.recipe? "tag_count" = some tagCount := rfl
  simp [Registry.resolve, Registry.visit_nil, Registry.visit_of_recipe, hcar, hcount, tagCount,
    Recipe.access, Except.bind]

private def motorwayToFerry : List Way :=
  [.ofTags 1 [("highway", "motorway")], .ofTags 2 [("highway", "footway")],
    .ofTags 3 [("highway", "primary"), ("lanes", "2"), ("lit", "yes"), ("name", "Ring")],
    .ofTags 4 [("route", "ferry")]]

private theorem motorwayToFerry_alone : ∃ a,
    carsAndCounts.assemble ["car_access", "tag_count"] .empty = .ok a ∧
    (∀ q ∈ a.pipeline.parsers, q.Confined) ∧
    motorwayToFerry.map (decisionAlone a) = [some .usable, some .skip, none, some .special] ∧
    motorwayToFerry.findSome? (panicAlone a) = none ∧
    (motorwayToFerry.filterMap (recordAlone a)).map Record.wayId = [1, 4] := by
  rw [Registry.assemble, resolve_carsAndCounts]
  refine ⟨_, rfl, ?_, ?_, ?_, ?_⟩
  · refine List.forall_mem_cons.2 ⟨?_, List.forall_mem_singleton.2 ?_⟩
    · exact TagParser.Assigns.confined fun _ _ _ _ => rfl
    · exact TagParser.Assigns.confined fun _ _ _ _ => rfl
  · decide +kernel
  · decide +kernel
  · decide +kernel

/-- The third way has more tags than two bits can count. It fails behind the access that is stored
    first, and the ferry after it has its record all the same. -/
theorem run_eq_alone_ferry : ∃ a summary records,
    carsAndCounts.assemble ["car_access", "tag_count"] .empty = .ok a ∧
    run a motorwayToFerry = .ok (summary, records) ∧ summary = ⟨1, 1, 1, 1⟩ ∧
    records.map Record.wayId = [1, 4] := by
  obtain ⟨a, hassemble, hparsers, hdecisions, hpanics, hids⟩ := motorwayToFerry_alone
  obtain ⟨-, hrun, -⟩ := run_eq_alone hassemble hparsers motorwayToFerry
  obtain ⟨summary, records, hrun, hrecords, hsummary, -⟩ :=
    hrun (findSome?_panicAlone_eq_none_iff.1 hpanics)
  refine ⟨a, summary, records, hassemble, hrun, ?_, by rw [hrecords, hids]⟩
  rw [hsummary, hdecisions]
  rfl

end Import

end EdgeAttributes
