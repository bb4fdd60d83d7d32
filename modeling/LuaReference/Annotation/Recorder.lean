import LuaReference.Annotation.Line
import LuaReference.Event
import LuaReference.Fault
import LuaReference.Registry

/-!
# Recording annotation blocks

A recorder holds the registry and stands in at most one block. The lines of a block name an
entity and then add to it; `Recorder.record` says what one line does. A line that fails leaves
the recorder as it was.
-/

namespace LuaReference

/-- Where a recorder stands: in no block, or in a block of some kind, with the entity or member
that the lines add to once it is named. -/
inductive Cursor where
  | outside
  | table (current : Option Nat)
  | ofClass (current : Option Nat)
  | field (current : Option Place)
  /-- In a block about a constructor, by its class and its position there. -/
  | constructor (current : Option (Nat × Nat))
  | function (current : Option Place)
  | nameSpace
  deriving DecidableEq, Inhabited

namespace Cursor

def start : Kind → Cursor
  | .table => table none
  | .ofClass => ofClass none
  | .field => field none
  | .constructor => constructor none
  | .function => function none
  | .nameSpace => nameSpace

def kind? : Cursor → Option Kind
  | outside => none
  | table _ => some .table
  | ofClass _ => some .ofClass
  | field _ => some .field
  | constructor _ => some .constructor
  | function _ => some .function
  | nameSpace => some .nameSpace

@[simp]
theorem kind?_start (k : Kind) : (start k).kind? = some k := by cases k <;> rfl

end Cursor

structure Recorder where
  registry : Registry := {}
  cursor : Cursor := .outside
  deriving DecidableEq, Inhabited

structure Recorded where
  recorder : Recorder
  events : List Event := []
  fault : Option Fault := none
  deriving DecidableEq, Inhabited

namespace Recorder

def begin (r : Recorder) (k : Kind) : Recorder := { r with cursor := .start k }

def close (r : Recorder) : Recorder := { r with cursor := .outside }

/-- The recorder as it was, and the fault of a line that comes before the owner. -/
def refuse (r : Recorder) (kind : Kind) (file : Path) (number : Nat) : Recorded :=
  { recorder := r, fault := some (.ownerMissing kind file number) }

/-! ### One line of each kind of block -/

def extendTable (line : Text) (t : Table) : Table :=
  { t with description := pushLine t.description (sanitize line) }

/-- A line of a block about a table: a name selects the table, any other line describes it. -/
def recordTable (r : Recorder) (current : Option Nat) (file : Path) (number : Nat) (line : Text) :
    Recorded :=
  if tagged "name" line then
    let (registry, i) := r.registry.tableEntry (tagValue line)
    { recorder := ⟨registry, .table (some i)⟩ }
  else match current with
    | none => r.refuse .table file number
    | some i =>
      { recorder := { r with registry := r.registry.modifyTable i (extendTable line) } }

def extendClass (line : Text) (c : Class) : Class :=
  if tagged "inherit" line then c.inherit (tagValue line)
  else { c with description := pushLine c.description (sanitize line) }

/-- A line of a block about a class: a name selects the class, further lines list its parents
or describe it. -/
def recordClass (r : Recorder) (current : Option Nat) (file : Path) (number : Nat) (line : Text) :
    Recorded :=
  if tagged "name" line then
    let (registry, i) := r.registry.classEntry (tagValue line)
    { recorder := ⟨registry, .ofClass (some i)⟩ }
  else match current with
    | none => r.refuse .ofClass file number
    | some i =>
      let repeated :=
        if tagged "inherit" line then
          (r.registry.classes[i]?.filter (·.inherits (tagValue line))).toList
        else []
      { recorder := { r with registry := r.registry.modifyClass i (extendClass line) }
        events := repeated.map fun c => .repeatedParent c.name (tagValue line) }

/-- The owner that a line of a block about a member names, and the registry that has it. -/
def holderOf? (r : Registry) (line : Text) : Option (Registry × Holder) :=
  if tagged "table" line then
    let (registry, i) := r.tableEntry (tagValue line)
    some (registry, .tableAt i)
  else if tagged "class" line then
    let (registry, i) := r.classEntry (tagValue line)
    some (registry, .classAt i)
  else none

def extendField (line : Text) (f : Field) : Field :=
  if tagged "field" line then
    { f with name := (tagValues 2 line)[0]?.getD [], type := (tagValues 2 line)[1]?.getD [] }
  else { f with description := pushLine f.description (sanitize line) }

/-- A line of a block about a field: an owner opens a new field, further lines fill it. -/
def recordField (r : Recorder) (current : Option Place) (file : Path) (number : Nat)
    (line : Text) : Recorded :=
  match holderOf? r.registry line with
  | some (registry, holder) =>
    let (registry, place) := registry.addField holder
    { recorder := ⟨registry, .field (some place)⟩ }
  | none =>
    match current with
    | none => r.refuse .field file number
    | some place =>
      { recorder := { r with registry := r.registry.modifyField place (extendField line) } }

/-- What a line inside a block about a constructor adds to the constructor. -/
def extendConstructor (line : Text) (c : Constructor) : Constructor :=
  if tagged "param" line then
    { c with parameters := c.parameters ++ [parameterOf line] }
  else { c with description := pushLine c.description (sanitize line) }

/-- A line of a block about a constructor: a class opens a new constructor, further lines fill
it. -/
def recordConstructor (r : Recorder) (current : Option (Nat × Nat)) (file : Path) (number : Nat)
    (line : Text) : Recorded :=
  if tagged "class" line then
    let (registry, i) := r.registry.classEntry (tagValue line)
    let (registry, j) := registry.addConstructor i
    { recorder := ⟨registry, .constructor (some (i, j))⟩ }
  else match current with
    | none => r.refuse .constructor file number
    | some (i, j) =>
      { recorder := { r with
          registry := r.registry.modifyConstructor i j (extendConstructor line) } }

/-- What a line inside a block about a function adds to the function, when it is no name line.
A return line without a second value leaves the description of the result as it was. -/
def extendFunction (line : Text) (f : Function) : Function :=
  if tagged "param" line then
    { f with parameters := f.parameters ++ [parameterOf line] }
  else if tagged "return" line then
    { f with
      returnType := (tagValues 2 line)[0]?.or f.returnType
      returnDescription := (tagValues 2 line)[1]?.getD f.returnDescription }
  else { f with description := pushLine f.description (sanitize line) }

/-- What a name line inside a block about a function does to the function. -/
def nameFunction (line : Text) (f : Function) : Function := { f with name := tagValue line }

def returnsUndescribed (line : Text) : Bool :=
  !tagged "param" line && tagged "return" line && (tagValues 2 line)[1]?.isNone

/-- A line of a block about a function: an owner opens a new function, further lines name it or
fill it. -/
def recordFunction (r : Recorder) (current : Option Place) (file : Path) (number : Nat)
    (line : Text) : Recorded :=
  match holderOf? r.registry line with
  | some (registry, holder) =>
    let (registry, place) := registry.addFunction holder
    { recorder := ⟨registry, .function (some place)⟩ }
  | none =>
    match current with
    | none => r.refuse .function file number
    | some place =>
      if tagged "name" line then
        { recorder := { r with
            registry := (r.registry.recordName (tagValue line) place).modifyFunction place
              (nameFunction line) } }
      else
        { recorder := { r with
            registry := r.registry.modifyFunction place (extendFunction line) }
          events :=
            if returnsUndescribed line then
              (r.registry.functionAt? place).toList.map fun f =>
                .returnUndescribed file number f.name
            else [] }

def recordNameSpace (r : Recorder) (line : Text) : Recorded :=
  if tagged "name" line then
    { recorder := { r with registry := r.registry.setNameSpace (tagValue line) } }
  else { recorder := r }

/-- What a trimmed comment line does to the open block. Outside any block it does nothing. -/
def record (r : Recorder) (file : Path) (number : Nat) (line : Text) : Recorded :=
  match r.cursor with
  | .outside => { recorder := r }
  | .table current => r.recordTable current file number line
  | .ofClass current => r.recordClass current file number line
  | .field current => r.recordField current file number line
  | .constructor current => r.recordConstructor current file number line
  | .function current => r.recordFunction current file number line
  | .nameSpace => r.recordNameSpace line

end Recorder

end LuaReference
