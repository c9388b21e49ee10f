/-
# The log of a run

Everything that a run printed, in order, and behind it the error that ended the
run, if one did.
-/

namespace Offside

/-- The entries of a log, oldest first. -/
abbrev Log := List (List Char)

namespace Log

/-- Add an entry behind all others. -/
def push (log : Log) (entry : List Char) : Log := log ++ [entry]

/-- Take all entries out: the entries, and the empty log. -/
def take (log : Log) : Log × Log := (log, [])

end Log

end Offside
