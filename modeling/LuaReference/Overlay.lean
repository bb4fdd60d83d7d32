import LuaReference.Document.Generation
import LuaReference.Files.Change
import LuaReference.Report
import LuaReference.Settings

/-!
# The overlay of hand-written pages

Directories with hand-written pages are copied over the generated documents. `overlays` plans the
copies, `overlayPaths` lists the files that they will bring, `copyOverlays` makes them. Links are
followed. Each step down makes the path longer, so the longest path bounds how deep they go.
-/

namespace LuaReference

/-- A directory of hand-written pages and the directory that it is copied into. -/
structure Overlay where
  source : Path
  destination : Path
  deriving DecidableEq

namespace FileTree

/-- The directories of hand-written pages that exist, classes before tables. -/
def overlays (t : FileTree) (primary out : Path) (s : Settings) : List Overlay :=
  ([classesDir, tablesDir].map fun dir =>
    Overlay.mk ((primary.join s.fragmentsDir).join dir) (out.join dir)).filter
      fun o => t.isDirectory o.source

/-! ### Listing -/

/-- Everything below the entries of a directory that is no directory, at most so deep. -/
def filesBelow (t : FileTree) : (depth : Nat) → (dir : Path) → List Text →
    Except Refusal (List Path)
  | _, _, [] => .ok []
  | 0, _, _ :: _ => .error .tooLong
  | depth + 1, dir, name :: names =>
    if t.isDirectory (dir.child name) then
      match t.list (dir.child name) with
      | .error why => .error why
      | .ok d => do
        let inside ← filesBelow t depth (dir.child name) (d.toList.map (·.1))
        let others ← filesBelow t (depth + 1) dir names
        return inside ++ others
    else (filesBelow t (depth + 1) dir names).map (dir.child name :: ·)

def filesUnder (t : FileTree) (dir : Path) : Except Refusal (List Path) :=
  match t.list dir with
  | .error why => .error why
  | .ok d => t.filesBelow longestPath dir (d.toList.map (·.1))

def overlayPathsOf (t : FileTree) (out : Path) (o : Overlay) : Except Refusal (List Path) :=
  (t.filesUnder o.source).map fun files => files.filterMap fun file =>
    (o.source.strip? file).bind fun below => out.strip? (o.destination.join below)

/-- The paths below the output directory that the overlays bring. -/
def overlayPaths (t : FileTree) (out : Path) : List Overlay → Except Refusal (List Path)
  | [] => .ok []
  | o :: os => do
    let first ← t.overlayPathsOf out o
    let others ← t.overlayPaths out os
    return first ++ others

end FileTree

/-! ### Copying -/

def Job.names (dir : Path) : Job (List Text) :=
  .reading fun t => .ofFiles ((t.list dir).map fun d => d.toList.map (·.1))

/-- One entry of a directory copied into another one. When it is a directory, what is in it is
copied by `inside`. -/
def copyEntry (inside : (source destination : Path) → List Text → Job Unit)
    (source destination : Path) (name : Text) : Job Unit := do
  if ← .reading fun t => .done (t.isDirectory (source.child name)) then
    .changes (FileTree.makeDirectories (destination.child name))
    let names ← Job.names (source.child name)
    inside (source.child name) (destination.child name) names
  else
    .change (FileTree.copyFile (source.child name) (destination.child name))
    .note (.event (.copiedFragment (destination.child name)))

/-- Entries of a directory copied into another one, at most so deep. -/
def copyEntries : (depth : Nat) → (source destination : Path) → List Text → Job Unit
  | 0, _, _, [] => pure ()
  | 0, _, _, _ :: _ => .reading fun _ => .failed (.refused .tooLong)
  | depth + 1, source, destination, names =>
    .each (copyEntry (copyEntries depth) source destination) names

def Overlay.copy (o : Overlay) : Job Unit := do
  .changes (FileTree.makeDirectories o.destination)
  let names ← Job.names o.source
  copyEntries FileTree.longestPath o.source o.destination names

def copyOverlays (os : List Overlay) : Job Unit := .each Overlay.copy os

end LuaReference
