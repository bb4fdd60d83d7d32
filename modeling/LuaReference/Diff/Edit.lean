import LuaReference.Text.Basic

/-!
# Edits

An edit script turns one list of lines into another: it keeps, drops and adds runs of lines.
`before` and `after` are the two lists that a script tells apart.
-/

namespace LuaReference

/-- One step of an edit script. -/
inductive Edit where
  | keep (lines : List Text)
  | drop (lines : List Text)
  | add (lines : List Text)
  deriving DecidableEq

namespace Edit

def before : Edit → List Text
  | keep ls | drop ls => ls
  | add _ => []

def after : Edit → List Text
  | keep ls | add ls => ls
  | drop _ => []

def lines : Edit → List Text
  | keep ls | drop ls | add ls => ls

end Edit

abbrev Script := List Edit

namespace Script

def before (s : Script) : List Text := s.flatMap Edit.before

def after (s : Script) : List Text := s.flatMap Edit.after

@[simp] theorem before_nil : before [] = [] := rfl
@[simp] theorem after_nil : after [] = [] := rfl

@[simp]
theorem before_cons (e : Edit) (s : Script) : before (e :: s) = e.before ++ before s := rfl

@[simp]
theorem after_cons (e : Edit) (s : Script) : after (e :: s) = e.after ++ after s := rfl

@[simp]
theorem before_append (s t : Script) : before (s ++ t) = before s ++ before t := by
  simp [before]

@[simp]
theorem after_append (s t : Script) : after (s ++ t) = after s ++ after t := by
  simp [after]

def keeping : List Text → Script
  | [] => []
  | ls => [.keep ls]

@[simp]
theorem before_keeping (ls : List Text) : before (keeping ls) = ls := by
  cases ls <;> simp [keeping, Edit.before]

@[simp]
theorem after_keeping (ls : List Text) : after (keeping ls) = ls := by
  cases ls <;> simp [keeping, Edit.after]

end Script

end LuaReference
