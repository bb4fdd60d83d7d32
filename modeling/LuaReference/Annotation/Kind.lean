import LuaReference.Text.LowerCase

/-!
# Kinds of annotation blocks

A block documents a table, a class, a field, a constructor or a function, or sets the namespace.
`Kind.ofText?_eq_some_iff` says which words open which kind.
-/

namespace LuaReference

inductive Kind where
  | table
  | ofClass
  | field
  | constructor
  | function
  | nameSpace
  deriving DecidableEq

namespace Kind

def all : List Kind := [table, ofClass, field, constructor, function, nameSpace]

def word : Kind → Text
  | table => "table".toList
  | ofClass => "class".toList
  | field => "field".toList
  | constructor => "constructor".toList
  | function => "function".toList
  | nameSpace => "namespace".toList

/-- The kind that a header names, in any letter case and with any blanks around it. -/
def ofText? (value : Text) : Option Kind := all.find? (·.word = value.trim.lower)

/-- What has to come first in a block of this kind. -/
def opening : Kind → Text
  | table | ofClass | nameSpace => "`Name: <name>`".toList
  | field | function => "`Table: <name>` or `Class: <name>`".toList
  | constructor => "`Class: <name>`".toList

theorem ofText?_eq_some_iff {value : Text} {k : Kind} :
    ofText? value = some k ↔ value.trim.lower = k.word := by
  constructor
  · intro h
    have h := List.find?_some h
    simpa [eq_comm] using h
  · intro h
    have hk : ∀ k : Kind, all.find? (·.word = k.word) = some k := by
      intro k
      cases k <;> decide
    rw [ofText?, h, hk]

end Kind

end LuaReference
