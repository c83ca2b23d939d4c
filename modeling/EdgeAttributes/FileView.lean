import EdgeAttributes.Error

namespace EdgeAttributes

/-- What stands at a path. -/
inductive FileView where
  | missing
  | directory
  | content (bytes : ByteArray)

namespace FileView

/-- The text of a file; its bytes must be UTF-8. -/
def text : FileView → Except FileFault String
  | missing => .error .notFound
  | directory => .error .isDirectory
  | content bytes =>
    match String.fromUTF8? bytes with
    | some s => .ok s
    | none => .error .notText

end FileView

end EdgeAttributes
