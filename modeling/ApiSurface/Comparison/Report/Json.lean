import ApiSurface.Comparison.Report
import ApiSurface.Json

/-!
# Reports as structured text
-/

namespace ApiSurface

def Location.toJson (l : Location) : Json :=
  .object
    [("package", .string l.package), ("class", .ofOption l.owner), ("member", .ofOption l.member)]

def Entry.toJson (e : Entry) : Json :=
  .object
    [("id", .string e.issue.name), ("severity", .string e.severity.label),
     ("location", e.location.toJson), ("old_value", .ofOption e.oldValue),
     ("new_value", .ofOption e.newValue), ("message", .string e.message)]

def Report.toJson (r : Report) : Json :=
  .object
    [("issues", .array (r.entries.map Entry.toJson)), ("error_count", .number r.errors),
     ("warning_count", .number r.warnings), ("migration_count", .number r.migrations),
     ("lint_count", .number r.lints), ("info_count", .number r.infos)]

end ApiSurface
