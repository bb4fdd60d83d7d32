import LuaReference.Text.Blank

/-!
# Pieces of documents

Documents are put together from lines, blank lines, paragraphs and comment lines.
-/

namespace LuaReference

namespace Piece

def line (t : Text) : Text := t ++ ['\n']

def blank : Text := ['\n']

/-- A text and an empty line behind it; nothing for the empty text. -/
def paragraph (t : Text) : Text := if t = [] then [] else line t ++ blank

def commentLine (t : Text) : Text := line (if t = [] then "--".toList else "-- ".toList ++ t)

/-- The lines of a text as comment lines; nothing for the empty text. -/
def comment (t : Text) : Text :=
  if t = [] then [] else (t.splitAll '\n').flatMap commentLine

/-- The lines of a text on one line, without blanks around them and without blank lines. -/
def oneLine (t : Text) : Text :=
  .join [' '] (((t.splitAll '\n').map Text.trim).filter (· ≠ []))

end Piece

end LuaReference
