import ClassCoupling.Analysis
import ClassCoupling.ClassFile.Constant
import ClassCoupling.ClassFile.Descriptor
import ClassCoupling.ClassFile.Stream
import ClassCoupling.ClassFile.Unit
import ClassCoupling.Decimal.Binary64
import ClassCoupling.Decimal.Fixed
import ClassCoupling.Decimal.Nearest
import ClassCoupling.Decimal.Scientific
import ClassCoupling.Decimal.Shortest
import ClassCoupling.Digraph.Basic
import ClassCoupling.Digraph.Components
import ClassCoupling.Digraph.Traversal
import ClassCoupling.Excuse
import ClassCoupling.ExitCode
import ClassCoupling.Failure
import ClassCoupling.FileTree.Basic
import ClassCoupling.FileTree.ClassDirectory
import ClassCoupling.FileTree.Guard
import ClassCoupling.FileTree.Listing
import ClassCoupling.FileTree.Output
import ClassCoupling.Instant
import ClassCoupling.Main
import ClassCoupling.Notice
import ClassCoupling.Path
import ClassCoupling.Pattern.Basic
import ClassCoupling.Pattern.Filter
import ClassCoupling.Problem
import ClassCoupling.Program
import ClassCoupling.Report.Basic
import ClassCoupling.Report.Format
import ClassCoupling.Report.Json
import ClassCoupling.Report.Rendering
import ClassCoupling.Report.Text
import ClassCoupling.Scan.Inputs
import ClassCoupling.Scan.Project
import ClassCoupling.Settings.Arguments
import ClassCoupling.Settings.Config
import ClassCoupling.Settings.ConfigFile
import ClassCoupling.Settings.Options
import ClassCoupling.Snapshot.Basic
import ClassCoupling.Snapshot.Coupling
import ClassCoupling.Snapshot.Cycles
import ClassCoupling.Snapshot.Graph
import ClassCoupling.Text.Alphanumeric
import ClassCoupling.Text.Blank
import ClassCoupling.Text.Cut
import ClassCoupling.Text.Keyword
import ClassCoupling.Text.NameSet
import ClassCoupling.Text.Utf8
import ClassCoupling.Total
import ClassCoupling.Tree.Basic
import ClassCoupling.Tree.Creation
import ClassCoupling.Tree.Names
import ClassCoupling.Tree.Shown
import ClassCoupling.Tree.Walk
import ClassCoupling.View.Basic
import ClassCoupling.View.CyclesOnly
import ClassCoupling.View.Granularity
import ClassCoupling.View.Reachability
import ClassCoupling.Yaml.Document
import ClassCoupling.Yaml.Glyph
import ClassCoupling.Yaml.Property
import ClassCoupling.Yaml.Scalar
import ClassCoupling.Yaml.Token
import ClassCoupling.Yaml.Value
import ClassCoupling.Proofs.Tree.Change
import ClassCoupling.Proofs.Tree.WellFormed
import ClassCoupling.Proofs.Tree.Ancestry
import ClassCoupling.Proofs.Tree.Reachable
import ClassCoupling.Proofs.Tree.Representation
import ClassCoupling.Proofs.Snapshot.Consistent
import ClassCoupling.Proofs.Snapshot.Quotient
import ClassCoupling.Proofs.Digraph.Components
import ClassCoupling.Proofs.Snapshot.Cycles
import ClassCoupling.Proofs.View.Granularity
import ClassCoupling.Proofs.Scan.Reachable
import ClassCoupling.Proofs.Analysis.Cycles
import ClassCoupling.Proofs.Program.Cycles
import ClassCoupling.Proofs.ClassFile.Grammar
import ClassCoupling.Proofs.Text.NameSet
import ClassCoupling.Proofs.ClassFile.Unit
import ClassCoupling.Proofs.Text.Cut
import ClassCoupling.Proofs.Tree.Containment
import ClassCoupling.Proofs.Snapshot.Excused
import ClassCoupling.Proofs.Snapshot.Editing
import ClassCoupling.Proofs.Tree.Path
import ClassCoupling.Proofs.Scan.Placement
import ClassCoupling.Proofs.Scan.Linking
import ClassCoupling.Proofs.Scan.Project
import ClassCoupling.Proofs.ClassFile.Frugality
import ClassCoupling.Proofs.Tree.Likeness
import ClassCoupling.Proofs.Tree.Omission
import ClassCoupling.Proofs.Scan.Accounting
import ClassCoupling.Proofs.Scan.Ignoring
import ClassCoupling.Proofs.Analysis.Likeness
import ClassCoupling.Proofs.Analysis.ViewState
import ClassCoupling.Proofs.Analysis.Ignoring
import ClassCoupling.Proofs.Tree.Generation
import ClassCoupling.Proofs.Snapshot.Staleness
import ClassCoupling.Proofs.Snapshot.Components
import ClassCoupling.Proofs.Digraph.Traversal
import ClassCoupling.Proofs.Snapshot.Traversal
import ClassCoupling.Proofs.Snapshot.Coupling
import ClassCoupling.Proofs.View.Stack
import ClassCoupling.Proofs.View.CyclesOnly
import ClassCoupling.Proofs.Text.Bytes
import ClassCoupling.Proofs.Pattern.Spelling
import ClassCoupling.Proofs.Tree.Creation
import ClassCoupling.Proofs.ClassFile.ObjectType
import ClassCoupling.Proofs.ClassFile.Search
import ClassCoupling.Proofs.ClassFile.Descriptor
import ClassCoupling.Proofs.Tree.Visibility
import ClassCoupling.Proofs.Snapshot.Explanation
import ClassCoupling.Proofs.View.Reachability
import ClassCoupling.Proofs.Snapshot.Removal
import ClassCoupling.Proofs.Snapshot.Union
import ClassCoupling.Proofs.Scan.Inputs
import ClassCoupling.Proofs.Snapshot.Baseline
import ClassCoupling.Proofs.FileTree.Resolution
import ClassCoupling.Proofs.FileTree.Path
import ClassCoupling.Proofs.Program.Output
import ClassCoupling.Proofs.FileTree.Walk
import ClassCoupling.Proofs.FileTree.ClassDirectory
import ClassCoupling.Proofs.Tree.Leaves
import ClassCoupling.Proofs.Tree.Naming
