import LuaReference.Document.Stub
import LuaReference.Document.Validation

/-!
# Generated files

Every table and class in both formats, with the path of the file below the output directory.
-/

namespace LuaReference

inductive Format where
  | page
  | stub
  deriving DecidableEq

def Format.extension : Format → Text
  | page => "md".toList
  | stub => "lua".toList

structure GeneratedFile where
  path : Path
  format : Format
  content : Text
  deriving DecidableEq

def tablesDir : Path := .ofString "tables"

def classesDir : Path := .ofString "classes"

namespace GeneratedFile

def ofTable (n : Naming) (format : Format) (t : Table) : GeneratedFile where
  path := tablesDir.child (n.qualifyTable t.name ++ '.' :: format.extension)
  format := format
  content := match format with
    | .page => Page.table n t
    | .stub => Stub.table n t

def ofClass (n : Naming) (format : Format) (c : Class) : GeneratedFile where
  path := classesDir.child (n.qualify c.name ++ '.' :: format.extension)
  format := format
  content := match format with
    | .page => Page.ofClass n c
    | .stub => Stub.ofClass n c

end GeneratedFile

/-- Every document of a registry: pages of tables, stubs of tables, pages of classes, stubs of
classes. -/
def Registry.documents (r : Registry) (s : Settings) : List GeneratedFile :=
  let n := Naming.of r s
  r.tables.map (.ofTable n .page) ++ r.tables.map (.ofTable n .stub) ++
    r.classes.map (.ofClass n .page) ++ r.classes.map (.ofClass n .stub)

def Registry.generate (r : Registry) (s : Settings) : Except Fault (List GeneratedFile) :=
  r.validate.map fun _ => r.documents s

end LuaReference
