import ApiSurface.Comparison.Report
import ApiSurface.Text.Style

/-!
# Reports as lines of text

One line for each entry, then a summary.
-/

namespace ApiSurface

open Text (Style)

def Severity.style : Severity → Style
  | .error => { bold := true, colour := some .red }
  | .warning => { bold := true, colour := some .yellow }
  | .migration => { colour := some .magenta }
  | .lint => { colour := some .cyan }
  | .info => { colour := some .blue }
  | .hidden => { dimmed := true }

def styled (coloured : Bool) (style : Style) (text : String) : String :=
  if coloured then style.apply text else text

def Entry.line (coloured : Bool) (e : Entry) : String :=
  styled coloured { bold := true } e.location.label ++ ": " ++
    styled coloured e.severity.style e.severity.label ++ ": " ++ e.message ++ " " ++
    styled coloured { dimmed := true } ("[" ++ e.issue.name ++ "]") ++ "\n"

namespace Report

/-- The verdict: errors and warnings, or that all is well. -/
def verdict (coloured : Bool) (r : Report) : String :=
  let warnings := styled coloured { colour := some .yellow } (toString r.warnings)
  let ok := styled coloured { bold := true, colour := some .green } "OK"
  if 0 < r.errors then
    styled coloured { bold := true, colour := some .red } (toString r.errors) ++ " errors, " ++
      warnings ++ " warnings\n"
  else if 0 < r.warnings then ok ++ " " ++ warnings ++ " warnings\n"
  else ok ++ " No compatibility problems found\n"

/-- The number of quieter entries, if there are any. -/
def quiet (r : Report) : String :=
  if 0 < r.migrations + r.lints + r.infos then
    s!"{r.migrations} migration, {r.lints} lint, {r.infos} info\n"
  else ""

def text (coloured : Bool) (r : Report) : String :=
  String.join (r.entries.map (Entry.line coloured)) ++ (if r.isEmpty then "" else "\n") ++
    r.verdict coloured ++ r.quiet

end Report

end ApiSurface
