import LuaReference.Entity
import LuaReference.Path
import LuaReference.Text.Quoted

/-!
# Events

What a run reports about itself while it works: each event has a level, a message and named
values. `Event.line` is its line in a log.
-/

namespace LuaReference

inductive Level where
  | debug
  | info
  | warn
  deriving DecidableEq

def Level.name : Level → Text
  | debug => "DEBUG".toList
  | info => "INFO".toList
  | warn => "WARN".toList

inductive Event where
  | scannedFile (file : Path) (blocks : Nat)
  | scannedSources (files blocks tables classes : Nat)
  | skippedRoot (root : Path)
  | repeatedParent (ofClass parent : Text)
  | returnUndescribed (file : Path) (line : Nat) (function : Text)
  | unknownParent (ofClass parent : Text)
  | unnamedFunction (owner : Owner)
  | wroteDocument (path : Path)
  | copiedFragment (path : Path)
  | usingSettings (path : Path)
  | nothingFound (files : Nat)
  deriving DecidableEq

namespace Event

def level : Event → Level
  | scannedFile .. | repeatedParent .. | wroteDocument _ | copiedFragment _ | usingSettings _ =>
    .debug
  | scannedSources .. => .info
  | skippedRoot _ | returnUndescribed .. | unknownParent .. | unnamedFunction _ | nothingFound _ =>
    .warn

def message : Event → Text
  | scannedFile .. => "scanned annotations".toList
  | scannedSources .. => "scanned sources".toList
  | skippedRoot _ => "source root is not a directory, skipping".toList
  | repeatedParent .. => "ignoring repeated inheritance".toList
  | returnUndescribed .. => ("return annotation has no description; expected " ++
      "`Return: <type>: <description>`").toList
  | unknownParent .. => "inherits from an undocumented class".toList
  | unnamedFunction _ => "function block has no `Name:` line".toList
  | wroteDocument _ => "wrote document".toList
  | copiedFragment _ => "copied fragment".toList
  | usingSettings _ => "using config file".toList
  | nothingFound _ => "no `Lua API` annotations found in the source roots".toList

/-- The values of an event by name, in the order of its log line. -/
def values : Event → List (Text × Text)
  | scannedFile file blocks =>
    [("file".toList, file.text), ("blocks".toList, .ofNat blocks)]
  | scannedSources files blocks tables classes =>
    [("files".toList, .ofNat files), ("blocks".toList, .ofNat blocks),
      ("tables".toList, .ofNat tables), ("classes".toList, .ofNat classes)]
  | skippedRoot root => [("root".toList, root.text)]
  | repeatedParent ofClass parent =>
    [("class".toList, ofClass), ("parent".toList, parent)]
  | returnUndescribed file line function =>
    [("file".toList, file.text), ("line".toList, .ofNat line), ("function".toList, function)]
  | unknownParent ofClass parent => [("class".toList, ofClass), ("parent".toList, parent)]
  | unnamedFunction owner => [("owner".toList, owner.label)]
  | wroteDocument path => [("path".toList, path.text)]
  | copiedFragment path => [("path".toList, path.text)]
  | usingSettings path => [("path".toList, path.text)]
  | nothingFound files => [("files".toList, .ofNat files)]

def quotes : Event → Text → Bool
  | repeatedParent .., key => key == "parent".toList
  | _, _ => false

end Event

end LuaReference
