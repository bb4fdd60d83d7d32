import LuaReference.Text.Basic

/-!
# TOML values

Values and tables of a TOML document, and the rules by which its statements build the tables:
no key is given twice, and a table that is complete is not opened again.
-/

namespace LuaReference

namespace Toml

/-- How a table came to be, which decides who may still add to it. -/
inductive Origin where
  /-- A header names it. -/
  | named
  /-- Only longer headers name it. -/
  | implied
  /-- Dotted keys name it. -/
  | dotted
  | inline
  deriving DecidableEq

/-- A value. Numbers, truth values and dates are told apart from texts, not from each other. -/
inductive Value where
  | text (t : Text)
  | scalar
  | array (items : List Value)
  | table (origin : Origin) (entries : List (Text × Value))
  | tables (items : List (List (Text × Value)))
  deriving Inhabited

abbrev Entries := List (Text × Value)

def set (k : Text) (v : Value) (es : Entries) : Entries :=
  es.map fun e => if e.1 = k then (k, v) else e

def assign (v : Value) : List Text → Entries → Option Entries
  | [], _ => none
  | [k], es => if (es.lookup k).isSome then none else some (es ++ [(k, v)])
  | k :: ks, es =>
    match es.lookup k with
    | none => (assign v ks []).map fun sub => es ++ [(k, .table .dotted sub)]
    | some (.table .dotted sub) => (assign v ks sub).map fun sub => set k (.table .dotted sub) es
    | some _ => none

/-- A change to the table at a path; of the tables under double brackets it is the last. -/
def within (f : Entries → Option Entries) : List Text → Entries → Option Entries
  | [], es => f es
  | k :: ks, es =>
    match es.lookup k with
    | some (.table o sub) =>
      if o = .inline then none else (within f ks sub).map fun sub => set k (.table o sub) es
    | some (.tables items) =>
      match items.getLast? with
      | none => none
      | some sub =>
        (within f ks sub).map fun sub => set k (.tables (items.dropLast ++ [sub])) es
    | _ => none

/-- The entries with an empty table for each step of a path that has none. -/
def imply : List Text → Entries → Entries
  | [], es => es
  | k :: ks, es =>
    match es.lookup k with
    | none => es ++ [(k, .table .implied (imply ks []))]
    | some (.table o sub) => set k (.table o (imply ks sub)) es
    | some (.tables items) =>
      match items.getLast? with
      | none => es
      | some sub => set k (.tables (items.dropLast ++ [imply ks sub])) es
    | some _ => es

def openTable (k : Text) (es : Entries) : Option Entries :=
  match es.lookup k with
  | none => some (es ++ [(k, .table .named [])])
  | some (.table .implied sub) => some (set k (.table .named sub) es)
  | some _ => none

/-- The entries in which a header with double brackets has added a table to `k`. -/
def openItem (k : Text) (es : Entries) : Option Entries :=
  match es.lookup k with
  | none => some (es ++ [(k, .tables [[]])])
  | some (.tables items) => some (set k (.tables (items ++ [[]])) es)
  | some _ => none

inductive Statement where
  | assign (key : List Text) (value : Value)
  | table (path : List Text)
  | item (path : List Text)

/-- The document so far, and the path of the table that keys go to. -/
structure Document where
  root : Entries := []
  path : List Text := []

/-- A header: the tables on the way are implied, the last step is opened. -/
def Document.openAt (d : Document) (path : List Text) (f : Text → Entries → Option Entries) :
    Option Document :=
  match path.getLast? with
  | none => none
  | some k => (within (f k) path.dropLast (imply path.dropLast d.root)).map fun root => ⟨root, path⟩

/-- The document after one more statement; `none` when it breaks a rule. -/
def Document.add (d : Document) : Statement → Option Document
  | .assign key value => (within (Toml.assign value key) d.path d.root).map fun root => ⟨root, d.path⟩
  | .table path => d.openAt path openTable
  | .item path => d.openAt path openItem

end Toml

end LuaReference
