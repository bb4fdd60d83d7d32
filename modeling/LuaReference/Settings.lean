import LuaReference.Path

/-!
# Settings

What a run can be told: how annotations are marked, which files are read, how names are
qualified, where hand-written pages lie and what to leave out.
-/

namespace LuaReference

structure Settings where
  /-- Text that marks a comment line as an annotation header, in any letter case. -/
  identifier : Text := "lua api".toList
  /-- A file is read when its extension starts with one of these. -/
  extensionStarts : List Text := ["c".toList, "h".toList]
  /-- Tables whose name contains this text are global: their names are never qualified. -/
  globalMarker : Text := "Global Table".toList
  /-- The token in documents that stands for the namespace. -/
  placeholder : Text := "\x7bLUA_API_NAMESPACE\x7d".toList
  /-- The directory with hand-written pages, seen from the primary root. -/
  fragmentsDir : Path := .ofString "../docs/lua"
  /-- The namespace used until an annotation sets one. -/
  nameSpace : Option Text := none
  /-- Patterns of files and directories to leave out. -/
  exclude : List Text := []
  deriving DecidableEq

instance : Inhabited Settings := ⟨{}⟩

def Settings.reads (s : Settings) (extension : Text) : Bool :=
  s.extensionStarts.any fun p => p.isPrefixOf extension

end LuaReference
