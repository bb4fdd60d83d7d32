import LuaReference.Document.Generation
import LuaReference.SettingsFile
import LuaReference.Sources

/-!
# Projects

A project is two source roots with the settings that hold for them. Settings are read from a
given file, or else from the first settings file in the directory above the primary root.
Building a project reads its sources and renders every document.
-/

namespace LuaReference

/-- Where a settings file may lie in the directory of a project; an earlier one goes first. -/
def settingsPlaces : List Path :=
  [.ofString "luadoc.toml", .ofString ".luadoc.toml", .ofString ".config/luadoc.toml"]

structure Project where
  primary : Path
  /-- The root of further sources, read after the main ones. -/
  secondary : Path
  settings : Settings
  settingsFile : Option Path
  deriving DecidableEq

namespace FileTree

def readSettings (t : FileTree) (p : Path) : Except Fault Settings :=
  match t.readText p with
  | .error why => .error (.refused why)
  | .ok text =>
    match Settings.ofToml? text with
    | none => .error .badSettings
    | some s => .ok s

def settingsIn (t : FileTree) (dir : Path) : Option Path :=
  (settingsPlaces.map dir.join).find? t.isFile

end FileTree

namespace Project

def home (primary : Path) : Path := primary.parent?.getD primary

/-- The project with the given roots, and with the settings in the given file, if any. -/
def load (t : FileTree) (primary secondary : Path) (given : Option Path) :
    Except Fault Project :=
  match given.or (t.settingsIn (home primary)) with
  | none => .ok ⟨primary, secondary, {}, none⟩
  | some p => (t.readSettings p).map (⟨primary, secondary, ·, some p⟩)

def roots (p : Project) : List Path := [p.primary, p.secondary]

end Project

structure Build where
  scanned : Scanned
  files : List GeneratedFile

def Registry.override (r : Registry) : Option Text → Registry
  | none => r
  | some n => r.setNameSpace n

def Project.build (t : FileTree) (p : Project) (nameSpace : Option Text) : Report Build := do
  let so ← t.scanSources p.settings p.roots
  let registry := so.registry.override nameSpace
  .log registry.warnings
  match registry.generate p.settings with
  | .error f => .failed f
  | .ok files => .done ⟨{ so with registry := registry }, files⟩

end LuaReference
