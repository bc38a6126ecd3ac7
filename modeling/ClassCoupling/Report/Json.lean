import ClassCoupling.Decimal.Scientific
import ClassCoupling.Report.Basic

/-!
# Reports as JSON

Two blanks of indentation for each level, an empty list on one line, and only those characters
escaped that have to be.
-/

namespace ClassCoupling.Report

inductive Json where
  | natural (n : Nat)
  | real (x : Float)
  | text (s : String)
  | list (items : List Json)
  | object (fields : List (String × Json))

namespace Json

def escapeChar (c : Char) : List Char :=
  if c = '"' then ['\\', '"']
  else if c = '\\' then ['\\', '\\']
  else if c = '\x08' then ['\\', 'b']
  else if c = '\x0c' then ['\\', 'f']
  else if c = '\n' then ['\\', 'n']
  else if c = '\r' then ['\\', 'r']
  else if c = '\t' then ['\\', 't']
  else if c.toNat < 0x20 then
    ['\\', 'u', '0', '0', Nat.digitChar (c.toNat / 16), Nat.digitChar (c.toNat % 16)]
  else [c]

def quote (s : String) : String :=
  "\"" ++ String.ofList (s.toList.flatMap escapeChar) ++ "\""

/-- A float that is no number is written as null. -/
def realText (x : Float) : String :=
  (Decimal.shortestText? x.toBits).getD "null"

def indentation (depth : Nat) : String := String.ofList (List.replicate (2 * depth) ' ')

/-- Puts written items on lines of their own between brackets. -/
def bracket (opening closing : String) (depth : Nat) (items : List String) : String :=
  if items.isEmpty then opening ++ closing
  else
    opening ++ "\n" ++
      ",\n".intercalate (items.map (indentation (depth + 1) ++ ·)) ++
      "\n" ++ indentation depth ++ closing

mutual

def render (depth : Nat) : Json → String
  | natural n => toString n
  | real x => realText x
  | text s => quote s
  | list items => bracket "[" "]" depth (renderItems (depth + 1) items)
  | object fields => bracket "\x7b" "\x7d" depth (renderFields (depth + 1) fields)

def renderItems (depth : Nat) : List Json → List String
  | [] => []
  | item :: items => render depth item :: renderItems depth items

def renderFields (depth : Nat) : List (String × Json) → List String
  | [] => []
  | (name, value) :: fields => (quote name ++ ": " ++ render depth value) :: renderFields depth fields

end

def texts (items : List String) : Json := list (items.map text)

end Json

open Json

def Metadata.toJson (m : Metadata) : Json :=
  object [
    ("tool_name", text m.toolName),
    ("tool_version", text m.toolVersion),
    ("timestamp", text m.timestamp),
    ("inputs", texts m.inputs)]

def ScanSummary.toJson (s : ScanSummary) : Json :=
  object [
    ("units_parsed", natural s.unitsParsed),
    ("units_skipped", natural s.unitsSkipped),
    ("duplicate_units", natural s.duplicateUnits),
    ("links", natural s.links),
    ("missing_references", natural s.missingReferences),
    ("skipped_inputs", texts s.skippedInputs)]

def NodeSummary.toJson (n : NodeSummary) : Json :=
  object [
    ("name", text n.name),
    ("units", natural n.units),
    ("successors", texts n.successors)]

def ViewSummary.toJson (v : ViewSummary) : Json :=
  object [
    ("level", text v.level),
    ("filters", texts v.filters),
    ("nodes", list (v.nodes.map NodeSummary.toJson)),
    ("arc_count", natural v.arcCount),
    ("density", real v.density)]

def Reason.toJson (r : Reason) : Json :=
  object [("from", text r.source), ("to", text r.target)]

def Arc.toJson (a : Arc) : Json :=
  object [
    ("from", text a.source),
    ("to", text a.target),
    ("reasons", list (a.reasons.map Reason.toJson))]

def Cycle.toJson (c : Cycle) : Json :=
  object [("nodes", texts c.nodes), ("arcs", list (c.arcs.map Arc.toJson))]

def Offender.toJson (o : Offender) : Json :=
  object [
    ("name", text o.name),
    ("depends_on", natural o.dependsOn),
    ("used_by", natural o.usedBy)]

def LevelMetrics.toJson (l : LevelMetrics) : Json :=
  object [
    ("level", text l.level),
    ("node_count", natural l.nodeCount),
    ("arc_count", natural l.arcCount),
    ("density", real l.density),
    ("cumulative_dependency", natural l.cumulative),
    ("average_dependency", real l.average),
    ("relative_dependency", real l.relative),
    ("worst_offenders", list (l.worst.map Offender.toJson))]

def MissingDependencies.toJson (m : MissingDependencies) : Json :=
  object [("unit", text m.unit), ("missing", texts m.missing)]

def toJson (r : Report) : Json :=
  object [
    ("metadata", r.metadata.toJson),
    ("scan", r.scan.toJson),
    ("view", r.view.toJson),
    ("cycles", list (r.cycles.map Cycle.toJson)),
    ("metrics", list (r.metrics.map LevelMetrics.toJson)),
    ("missing_dependencies", list (r.missingDependencies.map MissingDependencies.toJson))]

def toJsonText (r : Report) : String := r.toJson.render 0

end ClassCoupling.Report
