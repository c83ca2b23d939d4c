import EdgeAttributes.Decimal.Text

namespace EdgeAttributes

/-- Why a declaration is refused. -/
inductive DefinitionFault where
  | emptyName
  | badName
  | badWidth (bits : Nat)
  | badRange (min max : Int)
  | badFactor (factor : Float)

/-- Why a configuration or an assembly is refused. -/
inductive ConfigFault where
  | twoWriters (name owner newcomer : String)
  | requiresItself (key : String) (path : List String)
  | notBoolean (property text : String)
  | notNumber (property text : String)
  | malformed

/-- Why a file cannot be read as text. -/
inductive FileFault where
  | notFound
  | isDirectory
  | notText
deriving DecidableEq

/-- Everything that can go wrong with declarations, look-ups, values, storage and configuration. -/
inductive Error where
  | valueOutOfRange (name : String) (value min max : Int)
  | invalidDefinition (name : String) (fault : DefinitionFault)
  | duplicateEncodedValue (name : String)
  | duplicateImportKey (key : String)
  | unknownImportKey (key : String) (suggestion : Option String)
  | encodedValueNotFound (name : String) (suggestion : Option String)
  | kindMismatch (name expected actual : String)
  | storageTooNarrow (required actual : Nat)
  | config (fault : ConfigFault)
  | file (fault : FileFault)

/-- Widest slot that a declaration may ask for. It is one bit short of a word, so that every stored
    integer has 32 bits with its sign. -/
def maxBits : Nat := 31

namespace DefinitionFault

/-- The wording of a refused declaration. -/
def message : DefinitionFault → String
  | emptyName => "name must not be empty"
  | badName => "name must be lowercase ascii, digits or '_'"
  | badWidth bits => s!"bits must be in 1..={maxBits}, got {bits}"
  | badRange min max => s!"range [{min}, {max}] does not fit a signed 32-bit value"
  | badFactor factor => "factor must be finite and positive, got " ++ Decimal.text factor

end DefinitionFault

namespace ConfigFault

/-- The wording of a refused configuration. -/
def message : ConfigFault → String
  | twoWriters name owner newcomer =>
    s!"encoded value '{name}' is written by both {owner} and {newcomer}"
  | requiresItself key path =>
    s!"import key '{key}' requires itself via " ++ String.intercalate " -> " path
  | notBoolean property text => s!"property '{property}' must be true or false, got '{text}'"
  | notNumber property text => s!"property '{property}' must be a number, got '{text}'"
  | malformed => "the document does not describe an import"

end ConfigFault

namespace FileFault

/-- The wording of an unreadable file. -/
def message : FileFault → String
  | notFound => "No such file or directory (os error 2)"
  | isDirectory => "Is a directory (os error 21)"
  | notText => "stream did not contain valid UTF-8"

end FileFault

namespace Error

/-- The sentence that offers a suggestion, if there is one. -/
def didYouMean : Option String → String
  | some s => s!". Did you mean '{s}'?"
  | none => ""

/-- The wording of every cause. -/
def message : Error → String
  | valueOutOfRange name value min max =>
    s!"value {value} is out of range [{min}, {max}] for encoded value '{name}'"
  | invalidDefinition name fault =>
    s!"invalid definition for encoded value '{name}': " ++ fault.message
  | duplicateEncodedValue name => s!"encoded value '{name}' is already registered"
  | duplicateImportKey key => s!"import key '{key}' is already registered"
  | unknownImportKey key suggestion =>
    s!"unknown encoded value key '{key}'" ++ didYouMean suggestion
  | encodedValueNotFound name suggestion =>
    s!"encoded value '{name}' not available" ++ didYouMean suggestion
  | kindMismatch name expected actual => s!"encoded value '{name}' is {actual}, not {expected}"
  | storageTooNarrow required actual =>
    s!"edge storage holds {actual} ints per edge, layout needs {required}"
  | config fault => "invalid configuration: " ++ fault.message
  | file fault => "I/O error: " ++ fault.message

end Error

end EdgeAttributes
