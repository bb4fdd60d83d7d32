import LuaReference.Annotation.Kind
import LuaReference.Entity
import LuaReference.Path

/-!
# Faults

Everything that can stop a run, by cause, with the code, the help and the message that users see.
-/

namespace LuaReference

/-! ### Refusals of the operating system -/

inductive Refusal where
  | missing
  | present
  | notDirectory
  | isDirectory
  | tooLong
  | tooManyLinks
  | notUtf8
  | nulInPath
  deriving DecidableEq

def Refusal.message : Refusal → Text
  | missing => "No such file or directory (os error 2)".toList
  | present => "File exists (os error 17)".toList
  | notDirectory => "Not a directory (os error 20)".toList
  | isDirectory => "Is a directory (os error 21)".toList
  | tooLong => "File name too long (os error 36)".toList
  | tooManyLinks => "Too many levels of symbolic links (os error 40)".toList
  | notUtf8 => "stream did not contain valid UTF-8".toList
  | nulInPath => "file name contained an unexpected NUL byte".toList

/-! ### Faults of exclude patterns -/

inductive PatternFault where
  | unclosedGroup
  | unopenedGroup
  | backwardRange (first last : Char)
  | danglingEscape
  deriving DecidableEq

def PatternFault.message : PatternFault → Text
  | unclosedGroup => ("unclosed alternate group; missing '\x7d' " ++
      "(maybe escape '\x7b' with '[\x7b]'?)").toList
  | unopenedGroup => ("unopened alternate group; missing '\x7b' " ++
      "(maybe escape '\x7d' with '[\x7d]'?)").toList
  | backwardRange a b =>
    "invalid range; '".toList ++ [a] ++ "' > '".toList ++ [b] ++ "'".toList
  | danglingEscape => "dangling '\\'".toList

/-! ### Faults of a run -/

structure RepeatedField where
  owner : Text
  field : Field
  deriving DecidableEq

def RepeatedField.listing (d : RepeatedField) : Text :=
  "Field: ".toList ++ d.field.name ++ "\nType: ".toList ++ d.field.type ++
    "\nDescription: ".toList ++ d.field.description.trim ++ ['\n']

inductive Fault where
  | refused (why : Refusal)
  | badSettings
  /-- An exclude pattern is malformed; `line` is the part of it that was read. -/
  | badPattern (pattern line : Text) (why : PatternFault)
  | unknownKind (word : Text) (file : Path) (line : Nat)
  | ownerMissing (kind : Kind) (file : Path) (line : Nat)
  | repeatedFields (fields : List RepeatedField)
  deriving DecidableEq

namespace Fault

def code : Fault → Text
  | refused _ => "luadoc::io_error".toList
  | badSettings => "luadoc::config_parse".toList
  | badPattern .. => "luadoc::invalid_exclude_pattern".toList
  | unknownKind .. => "luadoc::invalid_doc_kind".toList
  | ownerMissing .. => "luadoc::missing_owner".toList
  | repeatedFields _ => "luadoc::duplicate_fields".toList

def help : Fault → Option Text
  | refused _ | badPattern .. => none
  | badSettings => some "check that luadoc.toml is valid TOML; every key is optional".toList
  | unknownKind .. =>
    some ("valid kinds: ".toList ++ Text.join ", ".toList (Kind.all.map Kind.word))
  | ownerMissing k _ _ => some ("declare the owner first with ".toList ++ k.opening)
  | repeatedFields _ => some "each field name must be unique within its table or class".toList

def message : Fault → Text
  | refused why => why.message
  | badSettings => "failed to parse config file".toList
  | badPattern pattern line why =>
    "invalid exclude pattern `".toList ++ pattern ++ "`: error parsing glob '".toList ++
      line ++ "': ".toList ++ why.message
  | unknownKind word file line =>
    "invalid annotation kind `".toList ++ word ++ "` at ".toList ++ file.text ++ [':'] ++
      .ofNat line
  | ownerMissing kind file line =>
    "`".toList ++ kind.word ++ "` block at ".toList ++ file.text ++ [':'] ++ .ofNat line ++
      " uses a line before its owner is declared".toList
  | repeatedFields fields =>
    "duplicate field names: ".toList ++ Text.join ", ".toList
      (fields.map fun d => "`".toList ++ d.field.name ++ "` in ".toList ++ d.owner)

end Fault

end LuaReference
