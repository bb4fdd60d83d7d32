import LuaReference.Registry
import LuaReference.Settings
import LuaReference.Text.Replace

/-!
# Naming in documents

How names appear in documents: with the namespace in front, except for global tables, and with
the placeholder for the namespace replaced.
-/

namespace LuaReference

structure Naming where
  /-- The namespace, when there is one; it is not empty. -/
  nameSpace : Option Text
  globalMarker : Text
  placeholder : Text
  deriving DecidableEq

namespace Naming

/-- The naming under a namespace, where an empty one counts as none. -/
def under (nameSpace : Option Text) (s : Settings) : Naming :=
  ⟨nameSpace.filter (· ≠ []), s.globalMarker, s.placeholder⟩

def of (r : Registry) (s : Settings) : Naming := under r.nameSpace s

def isGlobal (n : Naming) (table : Text) : Bool :=
  decide (n.globalMarker ≠ []) && table.contains n.globalMarker

def qualify (n : Naming) (name : Text) : Text :=
  match n.nameSpace with
  | some ns => ns ++ '.' :: name
  | none => name

def qualifyTable (n : Naming) (name : Text) : Text :=
  if n.isGlobal name then name else n.qualify name

def isGlobalOwner (n : Naming) : Owner → Bool
  | .table name => n.isGlobal name
  | .ofClass _ => false

def shortPath (f : Function) : Text := f.owner.name ++ f.owner.separator :: f.name

/-- The expression that calls a function. Functions of global tables are called by their bare
name. -/
def callPath (n : Naming) (f : Function) : Text :=
  if n.isGlobalOwner f.owner then f.name
  else n.qualify f.owner.name ++ f.owner.separator :: f.name

/-- The description of a function with its own mentions qualified. -/
def qualifyMentions (n : Naming) (f : Function) (t : Text) : Text :=
  if n.nameSpace.isNone || n.isGlobalOwner f.owner then t
  else t.replace (shortPath f) (n.callPath f)

/-- A document with the placeholder replaced by the namespace. Without a namespace the
placeholder goes where a period follows it, and the period with it. -/
def substitute (n : Naming) (t : Text) : Text :=
  if n.placeholder = [] then t
  else match n.nameSpace with
    | some ns => t.replace n.placeholder ns
    | none => t.replace (n.placeholder ++ ['.']) []

end Naming

end LuaReference
