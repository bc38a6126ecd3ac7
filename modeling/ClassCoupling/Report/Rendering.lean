import ClassCoupling.Report.Format
import ClassCoupling.Report.Json
import ClassCoupling.Report.Text

/-!
# Rendering a report
-/

namespace ClassCoupling.Report

def render (report : Report) : OutputFormat → String
  | .text => report.toText
  | .json => report.toJsonText

end ClassCoupling.Report
