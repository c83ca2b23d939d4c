import EdgeAttributes.CommandLine

namespace EdgeAttributes

/-- What stands at a path. What opens but cannot be read is a directory. -/
def FileView.ofPath (path : String) : IO FileView :=
  tryCatch (do
    let file ← IO.FS.Handle.mk path .read
    tryCatch (do return .content (← file.readBinToEnd)) fun _ => return .directory)
    fun _ => return .missing

/-- Write a text to a path, and say whether that worked. -/
def FileView.write (path text : String) : IO Bool :=
  tryCatch (do
    IO.FS.writeFile path text
    return true)
    fun _ => return false

namespace CommandLine

/-- How the commands are used. -/
def usage : String :=
  "usage: [--log-json] layout -c CONFIG\n" ++
    "       [--log-json] import -c CONFIG -w WAYS [-o OUT] [-t THREADS]"

/-- Print what a command ends with. -/
def Outcome.print (o : Outcome) : IO UInt32 := do
  o.lines.forM fun line => IO.println line
  match o.failure with
  | some message => IO.eprintln s!"Error: {message}"
  | none => if o.exit = Outcome.misused.exit then IO.eprintln usage
  return UInt32.ofNat o.exit

/-- Carry out a command. -/
def Command.carryOut (c : Command) : IO UInt32 := do
  let files ← c.inputs.mapM fun path => return (path, ← FileView.ofPath path)
  match c.report fun path => (files.lookup path).getD .missing with
  | .error stop => Outcome.print (.failed stop)
  | .ok report =>
    match report.output with
    | some (path, text) => Outcome.print (report.conclude (← FileView.write path text))
    | none => Outcome.print (report.conclude true)

end CommandLine

end EdgeAttributes

/-- Carry out the command that the arguments ask for. -/
def main (args : List String) : IO UInt32 :=
  match EdgeAttributes.CommandLine.parse? args with
  | some command => command.carryOut
  | none => EdgeAttributes.CommandLine.Outcome.print .misused
