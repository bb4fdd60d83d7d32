import LuaReference.Event
import LuaReference.Text.Quoted

/-!
# Style of printed text

Colours of the terminal, and the line of an event in the log. Without colours nothing but the
text itself is printed.
-/

namespace LuaReference

inductive Colour where
  | red
  | green
  | yellow
  | blue
  deriving DecidableEq

def Colour.number : Colour → Text
  | red => "31".toList
  | green => "32".toList
  | yellow => "33".toList
  | blue => "34".toList

def control (number : Text) : Text := '\x1b' :: '[' :: number ++ ['m']

namespace Text

/-- A text between two control sequences, if the terminal takes them. -/
def styled (t : Text) (on : Bool) (start stop : Text) : Text :=
  if on then control start ++ t ++ control stop else t

end Text

/-- A text in a colour; behind it the colour is what it was by default. -/
def Colour.paint (c : Colour) (on : Bool) (t : Text) : Text := t.styled on c.number "39".toList

def Level.colour : Level → Colour
  | .debug => .blue
  | .info => .green
  | .warn => .yellow

def Level.label (l : Level) : Text := List.replicate (5 - l.name.length) ' ' ++ l.name

def resetStyle : Text := "0".toList

def Level.opening (on : Bool) (l : Level) (message : Text) : Text :=
  l.label.styled on l.colour.number resetStyle ++ ' ' :: message

def Event.line (on : Bool) (e : Event) : Text :=
  let value (kv : Text × Text) : Text :=
    ' ' :: kv.1.styled on "3".toList resetStyle ++ Text.styled ['='] on "2".toList resetStyle ++
      if e.quotes kv.1 then kv.2.quoted else kv.2
  e.level.opening on e.message ++ e.values.flatMap value ++ ['\n']

def detailLine (on : Bool) (t : Text) : Text := Level.debug.opening on t ++ ['\n']

end LuaReference
