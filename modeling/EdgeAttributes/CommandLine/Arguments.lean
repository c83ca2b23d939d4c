import EdgeAttributes.Decimal.Reader

namespace EdgeAttributes.CommandLine

/-- What is asked for. -/
inductive Command where
  | layout (config : String)
  | importWays (config ways : String) (out : Option String) (threads : Option Nat)
deriving DecidableEq

/-- The options of the commands. -/
inductive Setting where
  | config
  | ways
  | out
  | threads
deriving DecidableEq

/-- The long name of an option. -/
def Setting.long : Setting → List Char
  | config => "config".toList
  | ways => "ways".toList
  | out => "out".toList
  | threads => "threads".toList

/-- The letter of an option. -/
def Setting.letter : Setting → Char
  | config => 'c'
  | ways => 'w'
  | out => 'o'
  | threads => 't'

/-- An argument as it is read: the flag for logs, an option with or without a value attached, or
    something else. -/
inductive Argument where
  | logJson
  | option (o : Setting) (value : Option (List Char))
  | endOfOptions
  | unknown
  | plain (text : List Char)

/-- A value behind an equals sign, or directly behind an option letter. -/
def attached (cs : List Char) : Option (List Char) :=
  match cs with
  | [] => none
  | '=' :: value => some value
  | value => some value

/-- Read an argument where some options are known. A single dash is a plain text. -/
def Argument.read (known : List Setting) (s : String) : Argument :=
  match s.toList with
  | '-' :: '-' :: name =>
    if name.isEmpty then .endOfOptions
    else if name = "log-json".toList then .logJson
    else
      match known.find? fun o => o.long == name.takeWhile (· != '=') with
      | some o => .option o (attached (name.dropWhile (· != '=')))
      | none => .unknown
  | '-' :: letter :: rest =>
    match known.find? fun o => o.letter == letter with
    | some o => .option o (attached rest)
    | none => .unknown
  | text => .plain text

/-- Options with their values, in order, and whether the flag for logs was given. -/
structure Given where
  values : List (Setting × String)
  logJson : Bool

/-- The value given for an option. -/
def Given.value? (g : Given) (o : Setting) : Option String :=
  (g.values.find? fun v => v.1 == o).map Prod.snd

/-- Add a value; none may be empty, and no option may be given twice. -/
def Given.add? (g : Given) (o : Setting) (value : List Char) : Option Given :=
  if value.isEmpty || (g.value? o).isSome then none
  else some { g with values := g.values ++ [(o, String.ofList value)] }

/-- Read the arguments of a command. `pending` is an option that still waits for its value. -/
def readOptions? (known : List Setting) (g : Given) (pending : Option Setting) :
    List String → Option Given
  | [] => if pending.isSome then none else some g
  | s :: rest =>
    match pending, Argument.read known s with
    | some o, .plain value => do readOptions? known (← g.add? o value) none rest
    | some _, _ => none
    | none, .option o (some value) => do readOptions? known (← g.add? o value) none rest
    | none, .option o none => readOptions? known g (some o) rest
    | none, .logJson =>
      if g.logJson then none else readOptions? known { g with logJson := true } none rest
    | none, .endOfOptions => if rest.isEmpty then some g else none
    | none, _ => none

/-- A count of 64 bits; a plus sign may come first. -/
def count? (s : String) : Option Nat :=
  let ds := match s.toList with
    | '+' :: ds => ds
    | ds => ds
  if ds.isEmpty || !ds.all Char.isDigit || UInt64.size ≤ Decimal.digitsValue ds then none
  else some (Decimal.digitsValue ds)

/-- The command that some arguments ask for; none if they are not used as they should be. -/
def parse? : List String → Option Command
  | "--log-json" :: "--log-json" :: _ => none
  | "--log-json" :: rest => command? rest
  | args => command? args
where
  command? : List String → Option Command
    | "layout" :: rest => do
      let g ← readOptions? [.config] ⟨[], false⟩ none rest
      some (.layout (← g.value? .config))
    | "import" :: rest => do
      let g ← readOptions? [.config, .ways, .out, .threads] ⟨[], false⟩ none rest
      let threads ← match g.value? .threads with
        | some t => (count? t).map some
        | none => some none
      some (.importWays (← g.value? .config) (← g.value? .ways) (g.value? .out) threads)
    | _ => none

end EdgeAttributes.CommandLine
