import LuaReference.CommandLine.Run
import LuaReference.Files.Patch

/-!
# The program

The part of the disk that a run looks at is read into a file tree, the run is made on the tree,
and what changed there is changed on the disk.
-/

namespace LuaReference

/-! ### From the disk -/

def diskPath (names : List Text) : String :=
  String.ofList ('/' :: Text.join ['/'] names)

/-- The tree with a directory and the directories above it, unless something is there. -/
def withDirectory (t : FileTree) (names : List Text) : FileTree :=
  (List.range (names.length + 1)).foldl (fun t n =>
    if (t.entry? (names.take n)).isSome then t
    else t.replace (names.take n) (.directory .empty)) t

def nowhere : Path := .ofString "/nowhere/nothing"

mutual

/-- The tree with everything on the disk that a walk along these steps passes. -/
partial def loadSteps (t : FileTree) (names : List Text) : List Text → IO FileTree
  | [] => loadAll t names
  | s :: rest =>
    if s = [] ∨ s = ['.'] then loadSteps t names rest
    else if s = ['.', '.'] then loadSteps t names.dropLast rest
    else do
      let p := (← IO.currentDir) / diskPath (names ++ [s])
      match ← p.symlinkMetadata.toBaseIO with
      | .error _ => return t
      | .ok m =>
        match m.type with
        | .dir => loadSteps (withDirectory t (names ++ [s])) (names ++ [s]) rest
        | .symlink =>
          let target : Path := match ← (IO.FS.realPath p).toBaseIO with
            | .ok target => .ofString (toString target)
            | .error _ => nowhere
          let linked := t.replace (names ++ [s]) (.link target)
          if (t.entry? (names ++ [s])).isSome then return t
          else loadSteps linked [] (target.steps ++ rest)
        | _ =>
          let bytes ← IO.FS.readBinFile p
          return t.replace (names ++ [s]) (.file bytes)

partial def loadAll (t : FileTree) (names : List Text) : IO FileTree := do
  let p := (← IO.currentDir) / diskPath names
  if ← p.isDir then
    let mut t := withDirectory t names
    for e in ← p.readDir do
      t ← loadSteps t names [e.fileName.toList]
    return t
  else return t

end

/-- The tree with everything on the disk at and below the given paths. -/
def load (t : FileTree) (ps : List Path) : IO FileTree :=
  ps.foldlM (fun t p => loadSteps t (FileTree.origin p t.here) p.steps) t

/-! ### To the disk -/

def apply : PatchStep → IO Unit
  | .make names => do
    let p := (← IO.currentDir) / diskPath names
    unless ← p.isDir do IO.FS.createDir p
  | .write names bytes => IO.FS.writeBinFile (diskPath names) bytes
  | .remove names => IO.FS.removeFile (diskPath names)

/-! ### The run -/

def Arguments.sourcePaths (a : Arguments) : List Path :=
  [a.primary, a.secondary] ++ a.settings.toList ++
    settingsPlaces.map (Project.home a.primary).join

def Arguments.outputPaths (a : Arguments) (s : Settings) : List Path :=
  [tablesDir, classesDir].flatMap fun dir =>
    [(a.primary.join s.fragmentsDir).join dir, a.output.join dir]

def Arguments.snapshot (a : Arguments) (here : List Text) : IO FileTree := do
  let t : FileTree := { top := .directory .empty, here := here }
  let t ← load (withDirectory t here) a.sourcePaths
  match Project.load t a.primary a.secondary a.settings with
  | .error _ => return t
  | .ok p =>
    let t ← load t (a.outputPaths p.settings)
    match (p.build t a.nameSpace).result with
    | .error _ => return t
    | .ok b => load t (b.files.map fun f => a.output.join f.path)

def Fault.report (f : Fault) : Text :=
  f.code ++ "\n\n  x ".toList ++ f.message ++ ['\n'] ++
    match f.help with
    | none => []
    | some h => "  help: ".toList ++ h ++ ['\n']

def runProgram (words : List String) : IO UInt32 := do
  let words := words.map String.toList
  let terminal := (← IO.getEnv "NO_COLOR").isNone
  let here := (Path.ofString (toString (← IO.FS.realPath (← IO.currentDir)))).steps.filter (· ≠ [])
  let t ← match Arguments.ofWords words with
    | .ok a => a.snapshot here
    | .error _ => pure {}
  let r := respond words terminal t
  (t.patch r.files).forM apply
  (← IO.getStdout).putStr (String.ofList r.output)
  (← IO.getStderr).putStr (String.ofList r.complaints)
  match r.verdict with
  | .failed f => (← IO.getStderr).putStr (String.ofList f.report)
  | _ => pure ()
  return r.verdict.status.toUInt32

end LuaReference

def main (words : List String) : IO UInt32 := LuaReference.runProgram words
