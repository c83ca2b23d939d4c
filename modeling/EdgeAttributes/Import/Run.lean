import EdgeAttributes.Assembly
import EdgeAttributes.Import.Record

namespace EdgeAttributes.Import

/-- How many ways came to what. -/
structure Summary where
  usable : Nat
  special : Nat
  skipped : Nat
  failed : Nat
deriving DecidableEq

namespace Summary

/-- No ways. -/
def empty : Summary := ⟨0, 0, 0, 0⟩

/-- The counts of two parts together. -/
def merge (a b : Summary) : Summary :=
  ⟨a.usable + b.usable, a.special + b.special, a.skipped + b.skipped, a.failed + b.failed⟩

/-- Count a way that was decided. -/
def count (s : Summary) : Decision → Summary
  | .usable => { s with usable := s.usable + 1 }
  | .special => { s with special := s.special + 1 }
  | .skip => { s with skipped := s.skipped + 1 }

/-- Count a way that failed. -/
def countFailed (s : Summary) : Summary := { s with failed := s.failed + 1 }

end Summary

/-- Ways in a shard. -/
def shardSize : Nat := 4096

/-- Cut a list into pieces of `size`, of which only the last may be shorter. -/
def shards {α : Type} (size : Nat) (hsize : 0 < size) (l : List α) : List (List α) :=
  if _h : l = [] then []
  else l.take size :: shards size hsize (l.drop size)
termination_by l.length
decreasing_by
  have := List.length_pos_iff.2 _h
  rw [List.length_drop]
  omega

/-- Storage of a shard, and what came of the ways taken so far; records are last first. -/
structure ShardState (width : Nat) where
  storage : EdgeStorage width
  summary : Summary
  records : List Record

/-- Take one way, which is stored as an edge. A way that is refused counts as failed; a word that
    storage does not have ends the import instead, in the parsers as well as in the reading. -/
def ShardState.take {width : Nat} (a : Assembly) (edge : Nat) (way : Way) :
    ShardState width → Except Fault (ShardState width)
  | ⟨storage, summary, records⟩ =>
    match a.pipeline.handle edge way Layout.createRelationFlags storage with
    | .error (.error _) storage => .ok ⟨storage, summary.countFailed, records⟩
    | .error (.wordPastWidth index limit) _ => .error (.wordPastWidth index limit)
    | .ok access storage =>
      if access.isSkip then .ok ⟨storage, summary.count access, records⟩
      else do
        let r ← Record.read a.layout storage edge way access
        return ⟨storage, summary.count access, r :: records⟩

/-- Take the ways of a shard in order. -/
def runShard (a : Assembly) (ways : List Way) : Except Fault (Summary × List Record) := do
  let start : ShardState a.layout.intsPerEdge :=
    ⟨a.layout.createStorage ways.length, .empty, []⟩
  let done ← (ways.zipIdx).foldlM (fun s (way, edge) => s.take a edge way) start
  return (done.summary, done.records.reverse)

/-- Take all ways; the records come in the order of the ways. An import that ends early ends at a
    fault of one of its shards. -/
def run (a : Assembly) (ways : List Way) : Except Fault (Summary × List Record) := do
  let parts ← (shards shardSize (by decide) ways).mapM (runShard a)
  return ((parts.map Prod.fst).foldl Summary.merge .empty, parts.flatMap Prod.snd)

/-- The text that records are written as. -/
def recordsText (records : List Record) : String := String.join (records.map Record.line)

end EdgeAttributes.Import
