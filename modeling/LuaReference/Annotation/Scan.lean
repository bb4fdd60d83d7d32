import LuaReference.Annotation.Recorder

/-!
# Scanning a source

A source is read line by line. A header opens a block, comment lines behind it belong to the
block, and any other line closes it. `scanLines` reads trimmed lines from a recorder on;
`scan` reads a whole text into a registry.
-/

namespace LuaReference

structure Scan where
  recorder : Recorder
  events : List Event := []
  blocks : Nat := 0
  fault : Option Fault := none
  deriving DecidableEq, Inhabited

def Recorder.read (r : Recorder) (s : Settings) (file : Path) (number : Nat) (line : Text) :
    Recorded :=
  if isHeader s line.lower then
    match headerKind? line with
    | some k => { recorder := r.begin k }
    | none => { recorder := r, fault := some (.unknownKind (headerWord line) file number) }
  else if r.cursor ≠ .outside ∧ line.contains commentMark then r.record file number line
  else { recorder := r.close }

/-- Reading trimmed lines, the first of which has the given number, until one fails. -/
def scanLines (s : Settings) (file : Path) : Nat → Recorder → List Text → Scan
  | _, r, [] => { recorder := r }
  | number, r, line :: rest =>
    let now := r.read s file number line
    match now.fault with
    | some f => { recorder := now.recorder, events := now.events, fault := some f }
    | none =>
      let later := scanLines s file (number + 1) now.recorder rest
      { later with
        events := now.events ++ later.events
        blocks := (if isHeader s line.lower then 1 else 0) + later.blocks }

def sourceLines (content : Text) : List Text := content.lines.map Text.trim

def scan (s : Settings) (file : Path) (content : Text) (registry : Registry) : Scan :=
  let result := scanLines s file 1 { registry := registry } (sourceLines content)
  if result.fault.isNone ∧ 0 < result.blocks then
    { result with events := result.events ++ [.scannedFile file result.blocks] }
  else result

end LuaReference
