import LuaReference.CommandLine.Arguments
import LuaReference.CommandLine.Style
import LuaReference.Diff.Lines
import LuaReference.Output
import LuaReference.Overlay
import LuaReference.Project

/-!
# A run of the program

A run loads and builds a project, and then compares, or prints what it would do, or writes.
`respond` is the whole program on words and a file tree. A comparison and a dry run are reports:
they read the tree and cannot change it.
-/

namespace LuaReference

inductive Ending where
  | done
  | outdated
  deriving DecidableEq

def Notice.say (t : Text) : Notice := .output (t ++ ['\n'])

def Path.shownIn (p out : Path) : Text := (p.relativeTo out).text

/-! ### Comparing -/

def Side.sign : Side → Char
  | .both => ' '
  | .old => '-'
  | .new => '+'

/-- A line of a difference as it is printed: it always ends in a line end. -/
def DiffLine.shown (on : Bool) (d : DiffLine) : Text :=
  let ends := d.text.getLast? = some '\n' ∨ d.text.getLast? = some '\r'
  let line := d.side.sign :: d.text ++ if ends then [] else ['\n']
  "  ".toList ++ match d.side with
    | .both => line
    | .old => Colour.red.paint on line
    | .new => Colour.green.paint on line

def shownDifference (on : Bool) (old new : Text) : Text :=
  (diffLines old new).flatMap (DiffLine.shown on)

def StaleFile.shown (on diff : Bool) (out : Path) (s : StaleFile) : Text :=
  "  ".toList ++ s.path.shownIn out ++ [' '] ++ match s.current with
    | none => Colour.red.paint on "(missing)".toList ++ ['\n']
    | some current =>
      Colour.yellow.paint on "(out of date)".toList ++ ['\n'] ++
        if diff then shownDifference on current s.expected else []

def shownStale (on diff : Bool) (out : Path) (ss : List StaleFile) : Text :=
  "Check failed.\n\nStale files:\n".toList ++ ss.flatMap (·.shown on diff out) ++ ['\n'] ++
    .ofNat ss.length ++ (" generated file(s) are out of date. " ++
      "Run `luadoc` without `--check` to regenerate.\n").toList

namespace Arguments

def compare (a : Arguments) (on : Bool) (t : FileTree) (files : List GeneratedFile)
    (os : List Overlay) : Report Ending := do
  let shadowed ← .ofFiles (t.overlayPaths a.output os)
  match t.stale a.output shadowed files with
  | .error f => .failed f
  | .ok [] =>
    .note (.say (Colour.green.paint on "All generated files are up to date.".toList))
    return .done
  | .ok (s :: ss) =>
    .note (.complaint (shownStale on a.diff a.output (s :: ss)))
    return .outdated

/-! ### Dry runs -/

def preview (a : Arguments) (files : List GeneratedFile) (os : List Overlay) : List Notice :=
  .say ("Dry run: would write ".toList ++ .ofNat files.length ++ " file(s):".toList) ::
    files.map (fun f => .say ("  ".toList ++ f.path.text)) ++
    os.map fun o => .say ("Would copy '".toList ++ o.source.text ++ "' to '".toList ++
      o.destination.shownIn a.output ++ ['\''])

/-! ### Writing -/

/-- A part of the generated files that is written in one go, and what is said then. -/
structure Batch where
  dir : Path
  format : Format
  message : Text

def batches : List Batch :=
  [⟨tablesDir, .page, "Wrote tables".toList⟩,
    ⟨tablesDir, .stub, "Wrote table definitions".toList⟩,
    ⟨classesDir, .page, "Wrote classes".toList⟩,
    ⟨classesDir, .stub, "Wrote class definitions".toList⟩]

def Batch.select (b : Batch) (files : List GeneratedFile) : List GeneratedFile :=
  files.filter fun f => f.format = b.format && f.path.startsWith b.dir

/-- The generated files written batch by batch, and the overlays copied over them. -/
def write (a : Arguments) (files : List GeneratedFile) (os : List Overlay) : Job Unit := do
  .each (fun b => do
    writeGenerated a.output (b.select files)
    .note (.say b.message)) batches
  .each (fun o => .note (.say ("Copying '".toList ++ o.source.text ++ "' to '".toList ++
    o.destination.text ++ ['\'']))) os
  copyOverlays os

/-! ### Whole runs -/

structure Plan where
  build : Build
  overlays : List Overlay

def plan (a : Arguments) (t : FileTree) : Report Plan := do
  let p ← match Project.load t a.primary a.secondary a.settings with
    | .error f => .failed f
    | .ok p => .done p
  .log (p.settingsFile.toList.map .usingSettings)
  let b ← p.build t a.nameSpace
  if b.scanned.registry.isEmpty then .log [.nothingFound b.scanned.files]
  return ⟨b, t.overlays p.primary a.output p.settings⟩

def summary (on : Bool) (b : Build) : Notice :=
  .say (Colour.green.paint on "Generated".toList ++ [' '] ++ .ofNat b.files.length ++
    " file(s) from ".toList ++ .ofNat b.scanned.files ++ " source file(s).".toList)

def run (a : Arguments) (on : Bool) : Job Ending := do
  let p ← .reading a.plan
  if a.check then .reading fun t => a.compare on t p.build.files p.overlays
  else if a.dryRun then
    .reading fun _ => ⟨a.preview p.build.files p.overlays, .ok .done⟩
  else
    a.write p.build.files p.overlays
    if a.verbose then .note (summary on p.build)
    return .done

end Arguments

/-! ### Responses -/

inductive Verdict where
  | ended (e : Ending)
  | failed (f : Fault)
  | usage (u : Usage)
  deriving DecidableEq

def Verdict.status : Verdict → Nat
  | ended .done | usage .helpAsked | usage .versionAsked => 0
  | ended .outdated => 1
  | failed _ | usage _ => 2

structure Response where
  files : FileTree
  verdict : Verdict
  output : Text
  /-- Everything on the standard error output, up to the report of a fault. -/
  complaints : Text

def Notice.onOutput : Notice → Text
  | .output t => t
  | _ => []

/-- The text of a notice on the standard error output. Only warnings are logged, unless
everything is. -/
def Notice.onError (verbose on : Bool) : Notice → Text
  | .complaint t => t
  | .event e => if verbose ∨ e.level = .warn then e.line on else []
  | .detail t => if verbose then detailLine on t else []
  | .output _ => []

/-- What is printed about a fault in front of its report: fields that share a name are listed. -/
def Fault.listing (on : Bool) : Fault → Text
  | .repeatedFields fields =>
    Colour.red.paint on "Error while building lua doc. Duplicate field names:".toList ++ ['\n'] ++
      fields.flatMap fun d => d.listing ++ ['\n']
  | _ => []

def version : Text := "luadoc_cli 0.3.0\n".toList

def usageText : Text :=
  ("Usage: luadoc [OPTIONS] <PRIMARY_ROOT> <SECONDARY_ROOT> <OUTPUT_ROOT>\n\n" ++
    "Options:\n" ++
    "      --config <CONFIG>        Path to a config file\n" ++
    "      --namespace <NAMESPACE>  Namespace prefixed to every table and class name\n" ++
    "      --check                  Verify that the output directory is up to date\n" ++
    "      --diff                   Show a unified diff for each stale file\n" ++
    "      --dry-run                Print the files that would be written\n" ++
    "  -v, --verbose                Enable verbose output\n" ++
    "      --no-color               Disable colored output\n" ++
    "  -h, --help                   Print help\n" ++
    "  -V, --version                Print version\n").toList

/-- The program on the words of its command line, on a terminal that takes colours or not. -/
def respond (words : List Text) (terminal : Bool) (t : FileTree) : Response :=
  match Arguments.ofWords words with
  | .error .helpAsked => ⟨t, .usage .helpAsked, usageText, []⟩
  | .error .versionAsked => ⟨t, .usage .versionAsked, version, []⟩
  | .error u => ⟨t, .usage u, [], usageText⟩
  | .ok a =>
    let on := terminal && !a.noColor
    let (files, report) := a.run on t
    let output := report.notices.flatMap Notice.onOutput
    let errors := report.notices.flatMap (Notice.onError a.verbose on)
    match report.result with
    | .ok e => ⟨files, .ended e, output, errors⟩
    | .error f => ⟨files, .failed f, output, errors ++ f.listing on⟩

end LuaReference
