import EdgeAttributes.CommandLine.Arguments
import EdgeAttributes.Import.Run
import EdgeAttributes.Import.Ways
import EdgeAttributes.ImportConfig
import EdgeAttributes.Registry.Builtin

namespace EdgeAttributes

/-- Read a configuration from a file. -/
def ImportConfig.load (f : FileView) : Except Error ImportConfig :=
  match f.text with
  | .ok s => ImportConfig.ofText s
  | .error e => .error (.file e)

namespace CommandLine

/-- Lines to print, and the path and content of a file to write after that. -/
structure Report where
  lines : List String
  output : Option (String × String)

/-- How a command ends early: at something that it reports, or at a fault that it is not made for,
    with the lines printed until then. -/
inductive Stop where
  | failure (message : String)
  | panic (lines : List String) (fault : Fault)

/-- How a command ends: its exit code, the lines printed, and the message of a failure. -/
structure Outcome where
  exit : Nat
  lines : List String
  failure : Option String

/-- A text filled up with spaces behind it. -/
def padded (width : Nat) (s : String) : String :=
  s ++ String.ofList (List.replicate (width - s.length) ' ')

/-- A slot as it is printed. -/
def slotText (s : Slot) : String := s!"int {s.index} bits {s.shift}..{s.shift + s.bits}"

/-- A field as it is printed. -/
def fieldLine (f : Field) : String :=
  "  " ++ padded 16 f.name ++ " " ++ padded 32 f.kind.describe ++
    s!" [{f.declaration.min}, {f.declaration.max}]  " ++
    String.intercalate " | " (f.slots.map slotText)

/-- A layout as it is printed. -/
def layoutLines (l : Layout) : List String :=
  s!"🦋 {l.fields.length} encoded values, {l.bitsUsed} bits in {l.intsPerEdge} ints per edge" ::
    l.fields.map fieldLine

/-- A summary as it is printed; failures only if there are some. -/
def summaryLines (s : Import.Summary) : List String :=
  [s!"  ✓ usable:  {s.usable}", s!"  ✓ special: {s.special}", s!"  ✓ skipped: {s.skipped}"] ++
    if s.failed > 0 then [s!"  ✗ failed:  {s.failed}"] else []

/-- Load a configuration and assemble what it asks for, from the built-in recipes. -/
def load (files : String → FileView) (path : String) : Except Stop Assembly :=
  match ImportConfig.load (files path) with
  | .error _ => .error (.failure ("Failed to load import config " ++ path))
  | .ok c =>
    match Registry.builtin.assemble c.encodedValues c.properties with
    | .error _ => .error (.failure "Failed to assemble import pipeline")
    | .ok a => .ok a

/-- The paths that a command reads. -/
def Command.inputs : Command → List String
  | .layout config => [config]
  | .importWays config ways _ _ => [config, ways]

/-- Carry out a command, up to the writing of its output. The number of threads has no influence on
    what it reports. -/
def Command.report (files : String → FileView) : Command → Except Stop Report
  | .layout config => do
    let a ← load files config
    return ⟨layoutLines a.layout, none⟩
  | .importWays config ways out _ => do
    let a ← load files config
    match Import.readWays (files ways) with
    | .error e => throw (.failure (e.message ways))
    | .ok read =>
      let opening := s!"🦋 Parsing {read.length} ways"
      match Import.run a read with
      | .error fault => throw (.panic [opening] fault)
      | .ok (summary, records) =>
        return ⟨opening :: summaryLines summary, out.map (·, Import.recordsText records)⟩

/-- The end of a command whose output, if it has any, was written or not. -/
def Report.conclude (r : Report) (written : Bool) : Outcome :=
  match r.output with
  | none => ⟨0, r.lines, none⟩
  | some (path, _) =>
    if written then ⟨0, r.lines ++ ["  ✓ Wrote " ++ path], none⟩
    else ⟨1, r.lines, some ("Failed to create " ++ path)⟩

/-- The end of a command that ended early. -/
def Outcome.failed : Stop → Outcome
  | .failure message => ⟨1, [], some message⟩
  | .panic lines fault => ⟨101, lines, some fault.message⟩

/-- The end of a command that was not used as it should be. -/
def Outcome.misused : Outcome := ⟨2, [], none⟩

end CommandLine

end EdgeAttributes
