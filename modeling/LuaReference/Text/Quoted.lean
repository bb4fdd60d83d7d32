import LuaReference.Text.CaseRanges
import LuaReference.Text.HiddenRanges
import LuaReference.Text.Basic

/-!
# Quoted texts

The quoted form in which a log line shows a text that it does not print plainly: between double
quotes, with a backslash before quotes and backslashes, short escapes for the usual controls, and
the code point in hexadecimal for any other character without a visible form.
-/

namespace LuaReference

/-- Whether a character has no visible form of its own. -/
def isHidden (c : Char) : Bool :=
  let n := c.toNat
  if n < 0x7F then n < 0x20 else inRanges hiddenRanges n

namespace Text

def quoteChar (c : Char) : Text :=
  if c = '\x00' then ['\\', '0']
  else if c = '\t' then ['\\', 't']
  else if c = '\r' then ['\\', 'r']
  else if c = '\n' then ['\\', 'n']
  else if c = '"' then ['\\', '"']
  else if c = '\\' then ['\\', '\\']
  else if isHidden c then "\\u\x7b".toList ++ Nat.toDigits 16 c.toNat ++ ['\x7d']
  else [c]

/-- A text in double quotes, with escapes for what has no visible form. -/
def quoted (t : Text) : Text := '"' :: t.flatMap quoteChar ++ ['"']

end Text

end LuaReference
