import ClassCoupling.FileTree.Guard
import ClassCoupling.Pattern.Filter
import ClassCoupling.Problem

/-!
# Failures

Everything that can end a run early, with the text shown first and the texts of what caused it.
-/

namespace ClassCoupling

inductive Failure where
  | problem (cause : Problem)
  | pattern (fault : Pattern.Fault)
  | guard (fault : FileTree.GuardFault)
  | invalidView (text : String)
  | invalidFormat (text : String)
  /-- An input that could not be loaded, in its own words. -/
  | input (text : String)
  | unreadableConfig (path : String) (cause : SystemError)
  | malformedConfig (path : String)
  /-- A setting of a configuration that has no meaning, for the given reason. -/
  | invalidSetting (key : String) (reason : String)
  | blankPattern (key : String) (index : Nat)
  deriving DecidableEq, Repr

namespace Failure

def message : Failure → String
  | .problem cause => cause.message
  | .pattern fault => fault.message
  | .guard fault => fault.message
  | .invalidView text =>
    "Invalid view: " ++ text ++ ". Please specify 'classes', 'packages' or 'archives'"
  | .invalidFormat text => "Invalid format: " ++ text ++ ". Please specify 'text' or 'json'"
  | .input text => text
  | .unreadableConfig path _ =>
    "Failed to read config file: " ++ path ++
      "\n\n💡 Hint: Check that the file exists and is readable."
  | .malformedConfig path =>
    "Failed to parse config file: " ++ path ++
      "\n\n💡 Hint: Ensure the file contains valid YAML syntax."
  | .invalidSetting key _ => "Invalid config: " ++ key
  | .blankPattern key index =>
    "Invalid config: " ++ key ++ "[" ++ toString index ++ "] must not be empty.\n\n💡 Hint: " ++
      "Each entry must be a unit or node name pattern (e.g., \"org.junit.*\")."

/-- What caused a failure, outermost first. -/
def causes : Failure → List String
  | .unreadableConfig _ cause => [cause.describe]
  | .invalidSetting _ reason => [reason]
  | _ => []

end Failure

end ClassCoupling
