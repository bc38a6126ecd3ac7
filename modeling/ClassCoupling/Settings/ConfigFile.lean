import ClassCoupling.Failure
import ClassCoupling.Report.Format
import ClassCoupling.Settings.Config
import ClassCoupling.Text.Blank
import ClassCoupling.Text.NameSet
import ClassCoupling.View.Granularity
import ClassCoupling.Yaml.Value

/-!
# Configuration files
-/

namespace ClassCoupling.Config

open Yaml (Document ValueReader)

def fileName : String := "classdeps.config.yml"

/-! ## Meaning -/

def knownKeys : List String :=
  ["format", "view", "ignored_classes", "ignored_sources", "focus", "fail_on_cycles"]

/-- Sets what a key stands for. The value of an unknown key only has to be well formed. -/
def set (d : Document) (config : Config) (key : String) (node : Yaml.Node) : ValueReader Config := do
  match key with
  | "format" => return { config with format := ← d.optional d.text node }
  | "view" => return { config with view := ← d.optional d.text node }
  | "ignored_classes" => return { config with ignoredClasses := ← d.optional d.texts node }
  | "ignored_sources" => return { config with ignoredSources := ← d.optional d.texts node }
  | "focus" => return { config with focus := ← d.optional d.texts node }
  | "fail_on_cycles" => return { config with failOnCycles := ← d.optional d.flag node }
  | _ =>
    let _ ← d.value (Document.maxDepth - 1) node
    return { config with unknown := Text.NameSet.insert key config.unknown }

/-- Sets the entries one by one; a known key comes once. -/
def setAll (d : Document) (config : Config) (seen : List String) :
    List (Yaml.Node × Yaml.Node) → ValueReader Config
  | [] => return config
  | (key, node) :: rest => do
    let key ← d.text key
    if key ∈ knownKeys ∧ key ∈ seen then failure
    setAll d (← config.set d key node) (key :: seen) rest

def ofDocument? (d : Document) : Option Config :=
  match d.root with
  | .mapping _ entries => (setAll d {} [] entries).run' d.maxAliases
  | .scalar _ .plain "" => some {}
  | _ => none

/-! ## Validity -/

def checkPatterns (key : String) (patterns : Option (List String)) : Except Failure Unit :=
  match (patterns.getD []).findIdx? Text.isBlank with
  | some index => .error (.blankPattern key index)
  | none => .ok ()

def check (config : Config) : Except Failure Unit := do
  if let some text := config.format then
    if (OutputFormat.ofString? text).isNone then
      throw (.invalidSetting "format" (Failure.invalidFormat text).message)
  if let some text := config.view then
    if (Granularity.ofString? text).isNone then
      throw (.invalidSetting "view" (Failure.invalidView text).message)
  checkPatterns "ignored_classes" config.ignoredClasses
  checkPatterns "ignored_sources" config.ignoredSources
  checkPatterns "focus" config.focus

/-! ## Files -/

def load (files : FileTree) (path : String) : Except Failure Config := do
  let text ← (files.readText (Path.ofText path)).mapError (.unreadableConfig path)
  match (Document.ofString? text).bind ofDocument? with
  | none => throw (.malformedConfig path)
  | some config =>
    config.check
    return config

/-- The configuration in a directory, if there is one. -/
def discover (files : FileTree) (directory : String) : Except Failure (Option Config) := do
  let path := Path.join directory fileName
  if files.pathExists (Path.ofText path) then return some (← load files path) else return none

/-- What is said about the keys that mean nothing. -/
def warnings (config : Config) : List String :=
  config.unknown.map fun key =>
    "⚠️  Warning: Unknown config field '" ++ key ++ "' will be ignored."

end ClassCoupling.Config
