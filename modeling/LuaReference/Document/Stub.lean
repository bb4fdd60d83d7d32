import LuaReference.Document.Page

/-!
# Definition stubs

The file that a Lua language server reads about a table or class: annotations in comments, and
for each constructor and function a definition without body.
-/

namespace LuaReference

namespace Stub

open Piece

def field (f : Field) : Text :=
  line ("---@field ".toList ++ f.name ++ (if f.type = [] then [] else ' ' :: f.type) ++
    (if oneLine f.description = [] then [] else " # ".toList ++ oneLine f.description))

def parameter (p : Parameter) : Text :=
  line ("---@param ".toList ++ p.name ++ " ".toList ++ p.type ++
    (if p.description = [] then [] else ' ' :: p.description))

def definition (call : Text) (ps : List Parameter) : Text :=
  line ("function ".toList ++ call ++ "(".toList ++ Page.parameterNames ps ++ ") end".toList)

def constructor (n : Naming) (c : Constructor) : Text :=
  comment c.description ++ c.parameters.flatMap parameter ++
    line ("---@return ".toList ++ n.qualify c.makes) ++
    definition (n.qualify c.makes ++ ":new".toList) c.parameters

def returns (f : Function) : Text :=
  match f.declaredReturn with
  | none => []
  | some type => line ("---@return ".toList ++ type ++ " # ".toList ++ f.returnDescription)

def function (n : Naming) (f : Function) : Text :=
  comment (n.qualifyMentions f f.description) ++ f.parameters.flatMap parameter ++ returns f ++
    definition (n.callPath f) f.parameters ++ blank

def functions (n : Naming) (fs : List Function) : Text :=
  if fs = [] then [] else fs.flatMap (function n) ++ blank

def header (name description : Text) : Text :=
  line ("---@meta ".toList ++ name) ++ blank ++ comment description

def declaration (name : Text) (parents : List Text) : Text :=
  line ("---@class (exact) ".toList ++ name ++
    (if parents = [] then [] else ": ".toList ++ Text.join ", ".toList parents))

def table (n : Naming) (t : Table) : Text :=
  n.substitute (header t.name t.description ++ declaration (n.qualifyTable t.name) [] ++
    t.fields.flatMap field ++ blank ++ functions n t.functions)

def ofClass (n : Naming) (c : Class) : Text :=
  n.substitute (header c.name c.description ++ declaration (n.qualify c.name) c.parents ++
    (if c.fields = [] then blank else []) ++ c.fields.flatMap field ++ blank ++
    (if c.constructors = [] then blank else []) ++ c.constructors.flatMap (constructor n) ++
    blank ++ functions n c.functions)

end Stub

end LuaReference
