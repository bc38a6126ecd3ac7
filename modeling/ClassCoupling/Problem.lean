/-!
# Problems with units, nodes and files

The causes an analysis can name. Each carries what its message shows; the wording is in
`Problem.message` only.
-/

namespace ClassCoupling

inductive Problem where
  /-- The bytes of a unit do not follow the class-file format. -/
  | malformedUnit (unit reason : String)
  | unsupportedVersion (unit : String) (found supported : Nat)
  /-- A unit declares another name than the one its place implies. -/
  | nameMismatch (expected found : String)
  /-- A node or link cannot be put where it was asked for. -/
  | structural (path reason : String)
  | unknownNode (name : String)
  | invalidInput (path reason : String)
  | unreadableFile (path details : String)
  | unwritableFile (path details : String)
  deriving DecidableEq, Repr, Inhabited

namespace Problem

def message : Problem → String
  | malformedUnit unit reason => unit ++ " is not a valid compiled unit: " ++ reason
  | unsupportedVersion unit found supported =>
    unit ++ " has format version " ++ toString found ++ ", newest supported version is " ++
      toString supported
  | nameMismatch expected found =>
    "Unit name mismatch: expected " ++ expected ++ " but the file declares " ++ found ++
      "\n\n💡 Hint: Check that the file sits in the directory matching its package"
  | structural path reason => "Cannot create node at '" ++ path ++ "': " ++ reason
  | unknownNode name =>
    "Node not found: " ++ name ++
      "\n\n💡 Hint: Use the fully qualified node name as shown in the report"
  | invalidInput path reason =>
    "Invalid input path: " ++ path ++ "\nReason: " ++ reason ++
      "\n\n💡 Hint: Please specify a directory containing compiled classes"
  | unreadableFile path details =>
    "Failed to read file: " ++ path ++ "\nDetails: " ++ details ++
      "\n\n💡 Hint: Please verify that the file exists and you have read permissions"
  | unwritableFile path details =>
    "Failed to write to file: " ++ path ++ "\nDetails: " ++ details ++
      "\n\n💡 Hint: Please verify that the directory exists and you have write permissions"

end Problem

end ClassCoupling
