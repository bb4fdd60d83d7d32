import LuaReference.Document.Generation
import LuaReference.Files.Change
import LuaReference.Report

/-!
# The output tree

Writing generated files below the output directory, and comparing them with what is there. A
written file replaces what was at its path; a comparison changes nothing and leaves out the
files that hand-written pages stand for.
-/

namespace LuaReference

def GeneratedFile.pathIn (f : GeneratedFile) (out : Path) : Path := out.join f.path

/-! ### Writing -/

/-- The directory of a path made, unless the path has none. -/
def makeParent (p : Path) : Job Unit :=
  match p.parent? with
  | none => pure ()
  | some dir => .changes (FileTree.makeDirectories dir)

/-- What is at a path removed, so that a new file can take its place. -/
def clearPath (p : Path) : Job Unit := do
  if ← .reading fun t => .done (t.isPresent p) then
    .change (FileTree.removeFile p)
  else pure ()

/-- A generated file written below the output directory, in place of the file that was there. -/
def GeneratedFile.write (out : Path) (f : GeneratedFile) : Job Unit := do
  makeParent (f.pathIn out)
  clearPath (f.pathIn out)
  .change (FileTree.writeFile (f.pathIn out) f.content.utf8)
  .note (.event (.wroteDocument (f.pathIn out)))

/-- The directories for tables and classes, and the generated files in them. -/
def writeGenerated (out : Path) (files : List GeneratedFile) : Job Unit := do
  .changes (FileTree.makeDirectories (out.join tablesDir))
  .changes (FileTree.makeDirectories (out.join classesDir))
  .each (·.write out) files

/-! ### Comparing -/

structure StaleFile where
  path : Path
  current : Option Text
  expected : Text
  deriving DecidableEq

/-- The text at a path, unless no file is there. -/
def FileTree.currentText (t : FileTree) (p : Path) : Except Fault (Option Text) :=
  if t.isFile p then
    match t.readText p with
    | .ok text => .ok (some text)
    | .error why => .error (.refused why)
  else .ok none

/-- The generated files that are missing or different in the output tree, apart from those at the
shadowed paths. -/
def FileTree.stale (t : FileTree) (out : Path) (shadowed : List Path) :
    List GeneratedFile → Except Fault (List StaleFile)
  | [] => .ok []
  | f :: fs =>
    if shadowed.any f.path.agrees then t.stale out shadowed fs
    else
      match t.currentText (f.pathIn out) with
      | .error e => .error e
      | .ok current =>
        if current = some f.content then t.stale out shadowed fs
        else (t.stale out shadowed fs).map (⟨f.pathIn out, current, f.content⟩ :: ·)

end LuaReference
