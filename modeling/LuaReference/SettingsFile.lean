import LuaReference.Settings
import LuaReference.Toml.Reader

/-!
# Settings files

The settings in a TOML document. Every key is optional, and no other key is allowed.
-/

namespace LuaReference

namespace SettingsFile

open Toml (Value Entries)

def asText : Value → Option Text
  | .text t => some t
  | _ => none

def asTexts : Value → Option (List Text)
  | .array items => items.mapM asText
  | _ => none

def asPatterns : Entries → Option (List Text)
  | [] => some []
  | [(k, v)] => if k = "patterns".toList then asTexts v else none
  | _ => none

/-- What to leave out: a table with the patterns, or a list whose first item is the patterns. -/
def asExclude : Value → Option (List Text)
  | .table _ es => asPatterns es
  | .array [] => some []
  | .array (v :: _) => asTexts v
  | _ => none

def apply (s : Settings) (e : Text × Value) : Option Settings :=
  match String.ofList e.1 with
  | "identifier" => (asText e.2).map fun t => { s with identifier := t }
  | "extension_prefixes" => (asTexts e.2).map fun ts => { s with extensionStarts := ts }
  | "global_table_marker" => (asText e.2).map fun t => { s with globalMarker := t }
  | "namespace_placeholder" => (asText e.2).map fun t => { s with placeholder := t }
  | "fragments_dir" => (asText e.2).map fun t => { s with fragmentsDir := ⟨t⟩ }
  | "namespace" => (asText e.2).map fun t => { s with nameSpace := some t }
  | "exclude" => (asExclude e.2).map fun ts => { s with exclude := ts }
  | _ => none

/-- The settings that a document gives, in place of the defaults. -/
def ofEntries (es : Entries) : Option Settings := es.foldlM apply {}

end SettingsFile

def Settings.ofToml? (t : Text) : Option Settings := (Toml.read t).bind SettingsFile.ofEntries

end LuaReference
