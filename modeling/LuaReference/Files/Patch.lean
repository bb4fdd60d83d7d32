import LuaReference.Files.Tree

/-!
# Patches

The steps that turn one tree into another: what is new or different is made or written, what is
gone is removed. Directories come before what is in them.
-/

namespace LuaReference

/-- A step of a patch, at the names that lead to its entry from the root. -/
inductive PatchStep where
  | make (names : List Text)
  | write (names : List Text) (bytes : ByteArray)
  | remove (names : List Text)
  deriving DecidableEq

namespace Directory

/-- The steps that bring the entries of a directory where `old` was, below the given names. -/
def additions (names : List Text) (old : Directory) : Directory → List PatchStep
  | empty => []
  | link _ _ rest => additions names old rest
  | file n bytes rest =>
    (if old.find? n = some (.file bytes) then [] else [.write (names ++ [n]) bytes]) ++
      additions names old rest
  | sub n inner rest =>
    (match old.find? n with
      | some (.directory d) => additions (names ++ [n]) d inner
      | _ => .make (names ++ [n]) :: additions (names ++ [n]) empty inner) ++
      additions names old rest

/-- The steps that remove the entries that `new` does not have any more, and the links that are
something else there. -/
def removals (names : List Text) (new : Directory) : Directory → List PatchStep
  | empty => []
  | file n _ rest =>
    (if (new.find? n).isNone then [.remove (names ++ [n])] else []) ++ removals names new rest
  | link n target rest =>
    (if new.find? n = some (.link target) then [] else [.remove (names ++ [n])]) ++
      removals names new rest
  | sub n inner rest =>
    (match new.find? n with
      | some (.directory d) => removals (names ++ [n]) d inner
      | _ => []) ++
      removals names new rest

end Directory

def FileTree.patch (old new : FileTree) : List PatchStep :=
  match old.top, new.top with
  | .directory d, .directory e => Directory.removals [] e d ++ Directory.additions [] d e
  | _, _ => []

end LuaReference
