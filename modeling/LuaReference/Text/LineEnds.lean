import LuaReference.Text.Replace

/-!
# Line ends

Sources come with line feeds, carriage returns or pairs of both at the ends of their lines; they
are scanned with line feeds alone.
-/

namespace LuaReference

namespace Text

/-- Every line end as a single line feed: first the pairs of carriage return and line feed, then
the carriage returns that stand alone. -/
def normalizeLineEnds (t : Text) : Text :=
  if '\r' ∈ t then (t.replace ['\r', '\n'] ['\n']).replace ['\r'] ['\n'] else t

end Text

end LuaReference
