/-
# The theme of the screen

Every style has a name that says where it is used, and the names share a small set
of looks, so that parts that should look alike do.
-/

import Offside.Screen.Cell

namespace Offside.Screen.Theme

/-- The pane that takes keys. -/
def active : Style := { foreground := some .cyan, bold := true }

/-- Ordinary text. -/
def normal : Style := {}

/-- What stands back behind ordinary text. -/
def muted : Style := { foreground := some .darkGray }

/-- What went wrong. -/
def error : Style := { foreground := some .red }

/-- The bars at the top and at the bottom. -/
def bar : Style := { foreground := some .black, background := some .cyan }

/-- The title bar. -/
def titleBar : Style := bar

/-- The status line. -/
def statusLine : Style := bar

/-- The frame around the editor. -/
def editorBorder : Style := active

/-- The frames around the output panes. -/
def outputBorder : Style := muted

/-- Line numbers. -/
def lineNumber : Style := muted

/-- Source and generated code. -/
def sourceText : Style := normal

/-- Entries of the log. -/
def logEntry : Style := normal

/-- The entry that tells of a failure. -/
def logError : Style := error

/-- A message in place of the whole screen. -/
def errorMessage : Style := error

end Offside.Screen.Theme
