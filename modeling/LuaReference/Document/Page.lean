import LuaReference.Document.Naming
import LuaReference.Document.Piece

/-!
# Reference pages

The page that people read about a table or class, in Markdown: title, description, fields,
constructors and functions, each with its parameters, result and a call.
-/

namespace LuaReference

namespace Page

open Piece

def code (t : Text) : Text := "`".toList ++ t ++ "`".toList

def parameterNames (ps : List Parameter) : Text := .join ", ".toList (ps.map (·.name))

def countedHeading (title : Text) (count : Nat) : Text :=
  line ("## ".toList ++ title ++ " (".toList ++ .ofNat count ++ ")".toList) ++ blank

def field (f : Field) : Text :=
  line ("### ".toList ++ code f.name) ++ blank ++ paragraph f.description ++
    (if f.type = [] then [] else line ("- Type: ".toList ++ code f.type)) ++ blank

def parameter (p : Parameter) : Text :=
  line ("  - ".toList ++ code p.name ++ " (".toList ++ p.type ++ ")".toList ++
    (if p.description = [] then [] else ": ".toList ++ p.description))

def parameters (ps : List Parameter) : Text :=
  if ps = [] then [] else line "- **Parameters:**".toList ++ ps.flatMap parameter ++ blank

def usage (call : Text) : Text :=
  line "**Example Usage:**".toList ++ line "```lua".toList ++ line call ++ line "```".toList ++
    blank

def constructor (n : Naming) (c : Constructor) : Text :=
  let names := parameterNames c.parameters
  line ("### ".toList ++ code ("new(".toList ++ names ++ ")".toList)) ++ blank ++
    paragraph c.description ++ parameters c.parameters ++
    usage ("myInstance = ".toList ++ n.qualify c.makes ++ ":new(".toList ++ names ++
      ")".toList)

/-- The part about the result of a function, when its type is given. -/
def returns (f : Function) : Text :=
  match f.declaredReturn with
  | none => []
  | some type => line "- **Returns:**".toList ++
      line ("  - ".toList ++ code type ++ ": ".toList ++ f.returnDescription) ++ blank

def exampleCall (n : Naming) (f : Function) : Text :=
  let call := n.callPath f ++ "(".toList ++ parameterNames f.parameters ++ ")".toList
  match f.declaredReturn with
  | none => call
  | some type => type ++ " = ".toList ++ call

def function (n : Naming) (f : Function) : Text :=
  line ("### ".toList ++ code (f.name ++ "(".toList ++ parameterNames f.parameters ++
      ")".toList)) ++ blank ++
    paragraph (n.qualifyMentions f f.description) ++ parameters f.parameters ++ returns f ++
    usage (exampleCall n f)

def fields (fs : List Field) : Text :=
  if fs = [] then [] else countedHeading "Fields".toList fs.length ++ fs.flatMap field

def constructors (n : Naming) (cs : List Constructor) : Text :=
  if cs = [] then []
  else countedHeading "Constructors".toList cs.length ++ cs.flatMap (constructor n)

def functions (n : Naming) (fs : List Function) : Text :=
  if fs = [] then []
  else countedHeading "Functions".toList fs.length ++ fs.flatMap (function n) ++ blank

def parents (ps : List Text) : Text :=
  if ps = [] then []
  else line ("## Inherit from ".toList ++ .ofNat ps.length ++ " class: ".toList ++
    .join ", ".toList ps) ++ blank

def table (n : Naming) (t : Table) : Text :=
  n.substitute (line ("# Table: ".toList ++ n.qualifyTable t.name) ++ blank ++
    paragraph t.description ++ fields t.fields ++ functions n t.functions)

def ofClass (n : Naming) (c : Class) : Text :=
  n.substitute (line ("# Class: ".toList ++ n.qualify c.name) ++ blank ++ parents c.parents ++
    paragraph c.description ++ fields c.fields ++ constructors n c.constructors ++
    functions n c.functions)

end Page

end LuaReference
