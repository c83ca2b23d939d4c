import EdgeAttributes.FileView
import EdgeAttributes.Import.Lines
import EdgeAttributes.Text.Blank
import EdgeAttributes.Way.Json

namespace EdgeAttributes.Import

/-- Why no ways were read. Lines are counted from one. -/
inductive ReadFault where
  | cannotOpen
  | cannotRead
  | invalidWay (line : Nat)
deriving DecidableEq

/-- The wording of a fault in a file. -/
def ReadFault.message (path : String) : ReadFault → String
  | cannotOpen => "Failed to open " ++ path
  | cannotRead => "Failed to read " ++ path
  | invalidWay line => s!"{path}:{line}: invalid way"

/-- The way of a line; none if the line is blank. -/
def wayOfLine (number : Nat) (line : List UInt8) : Except ReadFault (Option Way) :=
  match lineText? line with
  | none => .error .cannotRead
  | some s =>
    if Text.isBlankText s then .ok none
    else match Way.parse? s with
      | some w => .ok (some w)
      | none => .error (.invalidWay number)

/-- The ways of some lines, of which the first has a number. -/
def waysFrom (number : Nat) : List (List UInt8) → Except ReadFault (List Way)
  | [] => .ok []
  | line :: rest =>
    match wayOfLine number line with
    | .error e => .error e
    | .ok found =>
      match waysFrom (number + 1) rest with
      | .error e => .error e
      | .ok ways => .ok (found.toList ++ ways)

/-- The ways of a file. A directory can be opened, but not read. -/
def readWays : FileView → Except ReadFault (List Way)
  | .missing => .error .cannotOpen
  | .directory => .error .cannotRead
  | .content bytes => waysFrom 1 (lines bytes.toList)

end EdgeAttributes.Import
