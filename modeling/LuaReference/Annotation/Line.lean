import LuaReference.Annotation.Kind
import LuaReference.Entity
import LuaReference.Settings
import LuaReference.Text.Replace

/-!
# Comment lines

What single lines of a source say: whether one is a header, which tag it carries, what follows
the tag, and how a line without tag reads as text. Tags are matched on the lower case of a line,
values are cut from the line itself.
-/

namespace LuaReference

def commentMark : Text := "//".toList

def tagMark : Char := ':'

def isHeader (s : Settings) (lower : Text) : Bool :=
  lower.contains s.identifier.lower && decide (tagMark ∈ lower) && lower.contains commentMark

def headerKind? (line : Text) : Option Kind :=
  Kind.ofText? (line.behindFirst tagMark)

def headerWord (line : Text) : Text := (line.behindFirst tagMark).trim

/-- Whether a line, in lower case, carries a tag: once its comment marks are gone and it is
trimmed, it starts with the tag, and a separator stands somewhere in it. -/
def hasTag (lower tag : Text) : Bool :=
  decide (tagMark ∈ lower) && tag.isPrefixOf (lower.replace commentMark []).trim

def tagged (tag : String) (line : Text) : Bool := hasTag line.lower tag.toList

def tagValue (line : Text) : Text := (line.behindFirst tagMark).trim

/-- At most `n` values behind the tag; the last keeps any further separators. -/
def tagValues (n : Nat) (line : Text) : List Text :=
  (line.splitAtMost tagMark n).tail.map Text.trim

/-- A line without tag as text: without its comment mark, without the space behind the mark when
it is the only one, and without blanks at the end. -/
def sanitize (line : Text) : Text :=
  let text := match line.dropLeading? commentMark with
    | none => line
    | some rest =>
      match rest with
      | ' ' :: after => if after.head? = some ' ' then rest else after
      | _ => rest
  text.trimEnd

def parameterOf (line : Text) : Parameter :=
  let values := tagValues 3 line
  ⟨values[0]?.getD [], values[1]?.getD [], values[2]?.getD []⟩

end LuaReference
