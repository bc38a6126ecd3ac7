import ClassCoupling.Pattern.Basic
import ClassCoupling.Text.Alphanumeric
import ClassCoupling.Text.Cut

/-!
# Filters of units, inputs and nodes

A filter holds three lists of patterns. Patterns from outside are checked one by one, list by list,
and the first fault is reported.
-/

namespace ClassCoupling

namespace Pattern

/-- What the patterns of a list select. -/
inductive Role where
  | ignoredUnit
  | ignoredSource
  | focus
  deriving DecidableEq, Repr

def Role.label : Role → String
  | ignoredUnit => "ignored unit"
  | ignoredSource => "ignored source"
  | focus => "focus"

inductive Fault where
  | tooMany (role : Role) (count : Nat)
  | empty (role : Role)
  | tooLong (role : Role) (pattern : String)
  | invalidCharacter (role : Role) (pattern : String) (char : Char)
  | onlyWildcards (role : Role) (pattern : String)
  deriving DecidableEq, Repr

/-- Largest number of patterns in one list. -/
def maxCount : Nat := 64

/-- Largest length of a pattern, in UTF-8 bytes. -/
def maxLength : Nat := 255

def Fault.message : Fault → String
  | tooMany role count =>
    "Too many " ++ role.label ++ " patterns: " ++ toString count ++ " (maximum: " ++
      toString maxCount ++ ")"
  | empty role => "The " ++ role.label ++ " pattern cannot be empty"
  | tooLong role pattern =>
    "The " ++ role.label ++ " pattern is too long: '" ++ pattern ++ "' (" ++
      toString pattern.utf8ByteSize ++ " chars). Maximum: " ++ toString maxLength ++ " chars"
  | invalidCharacter role pattern char =>
    "The " ++ role.label ++ " pattern '" ++ pattern ++ "' contains invalid character '" ++
      char.toString ++ "'. Only alphanumerics and - _ . $ : / * are allowed."
  | onlyWildcards role pattern =>
    "The " ++ role.label ++ " pattern cannot contain only wildcards: '" ++ pattern ++ "'"

def isPatternChar (c : Char) : Bool :=
  Text.isAlphanumeric c || ['-', '_', '.', '$', ':', '/', '*'].contains c

/-- The first fault of a pattern. -/
def fault? (role : Role) (pattern : String) : Option Fault :=
  if pattern = "" then some (.empty role)
  else if maxLength < pattern.utf8ByteSize then some (.tooLong role pattern)
  else
    match pattern.toList.find? fun c => !isPatternChar c with
    | some c => some (.invalidCharacter role pattern c)
    | none => if pattern.toList.all (· = '*') then some (.onlyWildcards role pattern) else none

def compileList (role : Role) (patterns : List String) : Except Fault (List Pattern) :=
  if maxCount < patterns.length then .error (.tooMany role patterns.length)
  else
    match patterns.findSome? (fault? role) with
    | some fault => .error fault
    | none => .ok (patterns.map compile)

end Pattern

structure UnitFilter where
  ignoredUnits : List Pattern
  ignoredSources : List Pattern
  focus : List Pattern
  deriving DecidableEq, Repr

namespace UnitFilter

/-- Units of the platform library. -/
def defaultIgnoredUnits : List String := ["java.*"]

/-- Inputs that belong to a runtime installation or to build resources. -/
def defaultIgnoredSources : List String := ["*/jre/lib/*", "*/build/resources/*"]

/-- Only what comes from class directories is the project's own. -/
def defaultFocus : List String := ["dir:*"]

def standard : UnitFilter where
  ignoredUnits := defaultIgnoredUnits.map Pattern.compile
  ignoredSources := defaultIgnoredSources.map Pattern.compile
  focus := defaultFocus.map Pattern.compile

def make (ignoredUnits ignoredSources focus : List String) : Except Pattern.Fault UnitFilter := do
  return {
    ignoredUnits := ← Pattern.compileList .ignoredUnit ignoredUnits
    ignoredSources := ← Pattern.compileList .ignoredSource ignoredSources
    focus := ← Pattern.compileList .focus focus }

/-- Locations are compared with `/` between their parts. -/
def normalizeLocation (location : String) : String := Text.replace '\\' '/' location

def ignoresUnit (f : UnitFilter) (name : String) : Bool :=
  f.ignoredUnits.any (·.accepts name)

def ignoresSource (f : UnitFilter) (location : String) : Bool :=
  f.ignoredSources.any (·.accepts (normalizeLocation location))

/-- Without focus patterns every node is in focus. -/
def inFocus (f : UnitFilter) (name : String) : Bool :=
  f.focus.isEmpty || f.focus.any (·.accepts name)

/-! ## Queries that are remembered -/

def queryUnit (f : UnitFilter) (name : String) : Bool × UnitFilter :=
  let (found, patterns) := Pattern.query name f.ignoredUnits
  (found, { f with ignoredUnits := patterns })

def querySource (f : UnitFilter) (location : String) : Bool × UnitFilter :=
  let (found, patterns) := Pattern.query (normalizeLocation location) f.ignoredSources
  (found, { f with ignoredSources := patterns })

def queryFocus (f : UnitFilter) (name : String) : Bool × UnitFilter :=
  let (found, patterns) := Pattern.query name f.focus
  (f.focus.isEmpty || found, { f with focus := patterns })

/-- The ignore patterns that never were the one that matched. -/
def unmatched (f : UnitFilter) : List String :=
  ((f.ignoredUnits ++ f.ignoredSources).filter fun p => !p.matched).map (·.text)

end UnitFilter

end ClassCoupling
