import LuaReference.Annotation.Scan
import LuaReference.Pattern.Exclusion
import LuaReference.Report
import LuaReference.Text.LineEnds

/-!
# Sources

The files below the source roots that are read, and what reading all of them gives. `collect`
lists the files root by root, each root sorted; `scanSources` reads them into one registry.
-/

namespace LuaReference

def Settings.readsFile (s : Settings) (p : Path) : Bool :=
  match p.extension? with
  | some e => s.reads e
  | none => false

/-- The files below a directory that are read. Directories and files that are ignored are left
out, and links are not followed; `p` is the path of the directory. -/
def Directory.sources (s : Settings) (x : Exclusion) (p : Path) :
    Directory → Except Refusal (List Path)
  | empty => .ok []
  | file name _ rest => (rest.sources s x p).map (filesAt name)
  | link name _ rest => (rest.sources s x p).map (filesAt name)
  | sub name inner rest =>
    if x.ignores (p.child name) true then rest.sources s x p
    else if FileTree.longestPath < (p.child name).text.utf8Size then .error .tooLong
    else do
      let below ← inner.sources s x (p.child name)
      let behind ← rest.sources s x p
      return below ++ behind
where
  filesAt (name : Text) (found : List Path) : List Path :=
    if !x.ignores (p.child name) false && s.readsFile (p.child name) then p.child name :: found
    else found

namespace FileTree

/-- The exclusion of a source root, made ready for use: no rule may nest too deeply. -/
def exclusionFor (s : Settings) (root : Path) : Report Exclusion :=
  match Exclusion.of s root with
  | .error f => .failed f
  | .ok x => ⟨x.details.map .detail,
      if x.rules.any IgnoreRule.isTooDeep then .error .badSettings else .ok x⟩

/-- The files below one root that are read, in the order of their paths. -/
def collectRoot (t : FileTree) (s : Settings) (root : Path) : Report (List Path) :=
  if t.isDirectory root then do
    let x ← exclusionFor s root
    let d ← .ofFiles (t.list root)
    let found ← .ofFiles (d.sources s x root)
    return found.mergeSort Path.sortsBefore
  else do
    .log [.skippedRoot root]
    return []

def collect (t : FileTree) (s : Settings) : List Path → Report (List Path)
  | [] => .done []
  | root :: roots => do
    let first ← t.collectRoot s root
    let others ← t.collect s roots
    return first ++ others

end FileTree

structure Scanned where
  registry : Registry := {}
  files : Nat := 0
  blocks : Nat := 0
  deriving DecidableEq

namespace FileTree

def scanFile (t : FileTree) (s : Settings) (before : Scanned) (p : Path) : Report Scanned := do
  let bytes ← .ofFiles (t.readBytes p)
  let result := scan s p (Text.ofUtf8Lossy bytes).normalizeLineEnds before.registry
  .log result.events
  match result.fault with
  | some f => .failed f
  | none => .done ⟨result.recorder.registry, before.files + 1, before.blocks + result.blocks⟩

def scanFiles (t : FileTree) (s : Settings) : Scanned → List Path → Report Scanned
  | so, [] => .done so
  | so, p :: ps => do
    let next ← t.scanFile s so p
    t.scanFiles s next ps

/-- The registry that a run starts with: empty, in the namespace of the settings. -/
def startRegistry (s : Settings) : Registry :=
  match s.nameSpace with
  | none => {}
  | some n => ({} : Registry).setNameSpace n

def scanSources (t : FileTree) (s : Settings) (roots : List Path) : Report Scanned := do
  let files ← t.collect s roots
  let all ← t.scanFiles s { registry := startRegistry s } files
  .log [.scannedSources all.files all.blocks all.registry.tables.length
    all.registry.classes.length]
  return all

end FileTree

end LuaReference
